import Darkroom.Tone.Curves.Basic

/-!
# Drawing smooth curves

Between two neighbouring control points a smooth curve follows a Catmull-Rom segment, a cubic in each
coordinate. It is followed in small equal steps by its differences and marks the level that each step
comes to. In the end every control point sets the value at its own level, so the curve goes through
its control points whatever the segments between them gave.
-/

namespace Darkroom.Curve

/-- A cubic followed at equal steps: its value, and its first, second and third difference. Each
step then takes three additions. -/
structure Cubic where
  value : Float
  first : Float
  second : Float
  third : Float

namespace Cubic

/-- The coordinate of a segment from `b` to `c` with the neighbours `a` and `d`, at its start, to be
followed in the given number of steps. The coefficients are those of a Catmull-Rom spline. -/
def segment (steps : Nat) (a b c d : Float) : Cubic :=
  let cube := -0.5 * a + 1.5 * b + -1.5 * c + 0.5 * d
  let square := 1.0 * a + -2.5 * b + 2.0 * c + -0.5 * d
  let slope := -0.5 * a + 0.0 * b + 0.5 * c + 0.0 * d
  let d1 := 1.0 / Float.ofNat steps
  let d2 := d1 * d1
  let d3 := d1 * d1 * d1
  { value := b
    first := d3 * cube + d2 * square + d1 * slope
    second := 6.0 * d3 * cube + 2.0 * d2 * square
    third := 6.0 * d3 * cube }

@[inline] def next (c : Cubic) : Cubic :=
  ⟨c.value + c.first, c.first + c.second, c.second + c.third, c.third⟩

end Cubic

@[inline] def mark (values : Array UInt16) (x y : Nat) : Array UInt16 :=
  values.setIfInBounds x (UInt16.ofNat y)

/-- Follows a segment and marks the level that each step comes to, to the nearest. A level that is
met again gets the later value. -/
def follow (max : Nat) : Nat → Cubic → Cubic → Array UInt16 → Array UInt16
  | 0, _, _, values => values
  | steps + 1, x, y, values =>
    let x := x.next
    let y := y.next
    follow max steps x y (mark values (roundClamp x.value max) (roundClamp y.value max))

/-- Draws the segment from `b` to `c`. There are three steps for each level of the depth, however
short the segment is. -/
def plot (depth : Depth) (values : Array UInt16) (a b c d : Knot) : Array UInt16 :=
  let max := depth.maxValue
  let steps := 3 * max
  let coordinate (f : Knot → UInt16) : Cubic :=
    let coord (k : Knot) : Float := Float.ofNat (f k).toNat
    Cubic.segment steps (coord a) (coord b) (coord c) (coord d)
  let x := coordinate Knot.x
  let y := coordinate Knot.y
  follow max steps x y
    (mark values (Arith.clampNat max (Arith.truncate x.value))
      (Arith.clampNat max (Arith.truncate y.value)))

/-- Draws all segments. The first and the last control point are their own outer neighbours, so the
curve ends there without looking further. -/
def plotAll (depth : Depth) (before : Knot) : Array UInt16 → List Knot → Array UInt16
  | values, b :: c :: rest =>
    plotAll depth b (plot depth values before b c (rest.headD c)) (c :: rest)
  | values, _ => values

/-- The value before the first and behind the last control point is theirs, as far as no segment
comes there. -/
def fillEnds (first last : Knot) (values : Array UInt16) : Array UInt16 :=
  values.mapIdx fun bin v =>
    if last.x.toNat ≤ bin then last.y else if bin < first.x.toNat then first.y else v

/-- Sets the value at each control point. It is done last, as the steps of a segment may have marked
another value there. -/
def markKnots (values : Array UInt16) (knots : List Knot) : Array UInt16 :=
  knots.foldl (fun values k => values.setIfInBounds k.x.toNat k.y) values

/-- The values of a smooth curve through control points. -/
def drawn (depth : Depth) (knots : List Knot) (values : Array UInt16) : Array UInt16 :=
  match knots with
  | [] => values
  | first :: rest =>
    markKnots
      (plotAll depth first (fillEnds first (rest.getLastD first) values) (first :: rest))
      (first :: rest)

/-- Draws a smooth curve anew. A free curve, and one without control points, keeps its values. -/
def calculate (depth : Depth) (c : Curve) : Curve :=
  match c.kind with
  | .free => c
  | .smooth => { c with values := drawn depth c.knots c.values }

end Darkroom.Curve
