import Darkroom.Tone.Curves.Sets

/-!
# Curves along any tracing

Which levels a segment comes to rests on the rounding of each of its steps. A tracing leaves that open:
it gives the places that a segment comes to, and each of them is brought into the range of the depth and
marked. Here curves are drawn, brought to the other depth and built from settings along any tracing, so
that what holds whatever the steps give can be stated; `Tracing.catmullRom` is the tracing that curves
are drawn along.
-/

namespace Darkroom.Curve

def Cubic.places : Nat → Cubic → Cubic → List (Int × Int)
  | 0, _, _ => []
  | steps + 1, x, y =>
    (Arith.round x.next.value, Arith.round y.next.value) :: places steps x.next y.next

/-- How segments run: the places that the one from `b` to `c` with the neighbours `a` and `d` comes to,
as level and value, one after the other. -/
structure Tracing where
  places (depth : Depth) (a b c d : Knot) : List (Int × Int)

namespace Tracing

/-- The steps of a Catmull-Rom segment, starting from the control point itself. They are those that
`plot` follows. -/
def catmullRom : Tracing where
  places depth a b c d :=
    let steps := 3 * depth.maxValue
    let coordinate (f : Knot → UInt16) : Cubic :=
      let coord (k : Knot) : Float := Float.ofNat (f k).toNat
      Cubic.segment steps (coord a) (coord b) (coord c) (coord d)
    let x := coordinate Knot.x
    let y := coordinate Knot.y
    (Arith.truncate x.value, Arith.truncate y.value) :: Cubic.places steps x y

variable (t : Tracing)

/-! ## Drawing -/

def markAll (depth : Depth) (values : Array UInt16) (places : List (Int × Int)) : Array UInt16 :=
  places.foldl (fun values (x, y) =>
    mark values (Arith.clampNat depth.maxValue x) (Arith.clampNat depth.maxValue y)) values

def plotAll (depth : Depth) (before : Knot) : Array UInt16 → List Knot → Array UInt16
  | values, b :: c :: rest =>
    plotAll depth b (markAll depth values (t.places depth before b c (rest.headD c))) (c :: rest)
  | values, _ => values

def drawn (depth : Depth) (knots : List Knot) (values : Array UInt16) : Array UInt16 :=
  match knots with
  | [] => values
  | first :: rest =>
    markKnots
      (t.plotAll depth first (fillEnds first (rest.getLastD first) values) (first :: rest))
      (first :: rest)

def calculate (depth : Depth) (c : Curve) : Curve :=
  match c.kind with
  | .free => c
  | .smooth => { c with values := t.drawn depth c.knots c.values }

/-! ## Curves that are drawn -/

def converted (source target : Depth) (c : Curve) : Curve :=
  if source = target then c else t.calculate target (c.rescaled target)

def sampled (depth : Depth) (values : List Point) : Curve :=
  t.calculate depth ((linear depth).setPointsFrom depth 0 (samples depth values))

/-- Sets the values from a list, which is sampled if it has not one entry a level. Only a sampled
list is drawn, so only for such a list the tracing matters. -/
def setValues (depth : Depth) (c : Curve) (values : List Point) : Curve :=
  if values.isEmpty then c.reset depth
  else if values.length = depth.segments then
    { c with values := (values.map fun p => bounded depth p.y.toInt).toArray }
  else
    let source := if values.length = Depth.eight.segments then Depth.eight else .sixteen
    { c with values := (t.converted source depth (t.sampled source values)).values }

def curveOf (kind : CurveKind) (depth : Depth) (points : List Point) : Curve :=
  let start := { linear depth with kind := kind }
  match kind with
  | .smooth => t.calculate depth (start.setPoints depth points)
  | .free => t.setValues depth start points

/-- The curves that settings describe, with segments traced in this way. With the steps of a
Catmull-Rom segment they are those of `Curves.ofSettings`. -/
def ofSettings (s : Curves.Settings) : Curves :=
  ⟨s.depth, s.lists.map (t.curveOf s.kind s.depth)⟩

end Tracing

end Darkroom.Curve
