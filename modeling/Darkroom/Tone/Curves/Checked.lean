import Darkroom.Tone.Curves.Sets
import Darkroom.Tone.Curves.Transfer
import Darkroom.Tone.Words

/-!
# Curves with checked indices

Editing, drawing and reading curves once more, down to the loops over points and values that it is made
of. A control point is the point that its slot shows, and a coordinate becomes an index by a cast, which
takes a negative one far behind all values. One index outside the values, or outside the list of slots
in use, makes all of it give nothing.
-/

namespace Darkroom

namespace Curve.Checked

/-! ## Values -/

/-- A coordinate as an index. A negative one becomes a number of 64 bits that is larger than every
size. -/
def index (x : Int32) : Nat :=
  x.toInt64.toUInt64.toNat

def level (y : Int32) : UInt16 :=
  y.toUInt32.toUInt16

/-- Sets the value at an index. An index behind the end is a fault here, where `mark` ignores it. -/
def put (values : Array UInt16) (i : Nat) (v : UInt16) : Option (Array UInt16) :=
  if i < values.size then some (values.setIfInBounds i v) else none

/-- Sets the values of a range. Bounds that are not in order are a fault, as they are where ranges
are sliced. -/
def fill (values : Array UInt16) (start stop : Nat) (v : UInt16) : Option (Array UInt16) :=
  if start ≤ stop ∧ stop ≤ values.size then
    some (values.mapIdx fun i old => if start ≤ i ∧ i < stop then v else old)
  else none

/-! ## Segments -/

/-- Follows a segment and marks the level that a step comes to where it is not that of the step
before. -/
def follow (max : Nat) : Nat → Cubic → Cubic → Nat → Nat → Array UInt16 → Option (Array UInt16)
  | 0, _, _, _, _, values => some values
  | steps + 1, x, y, lastX, lastY, values => do
    let x := x.next
    let y := y.next
    let newX := roundClamp x.value max
    let newY := roundClamp y.value max
    let values ← if lastX ≠ newX ∨ lastY ≠ newY then put values newX (UInt16.ofNat newY)
      else some values
    follow max steps x y newX newY values

/-- Draws the segment from `b` to `c`. The last level that was marked is remembered, so that a level
is not marked again by the next step. -/
def plot (depth : Depth) (values : Array UInt16) (a b c d : Point) : Option (Array UInt16) := do
  let max := depth.maxValue
  let steps := 3 * max
  let coordinate (f : Point → Int32) : Cubic :=
    let coord (p : Point) : Float := Float.ofInt (f p).toInt
    Cubic.segment steps (coord a) (coord b) (coord c) (coord d)
  let x := coordinate Point.x
  let y := coordinate Point.y
  let lastX := Arith.clampNat max (Arith.truncate x.value)
  let lastY := Arith.clampNat max (Arith.truncate y.value)
  let values ← put values lastX (UInt16.ofNat lastY)
  follow max steps x y lastX lastY values

/-- Draws the segment that starts at the slot with number `i` among those in use. At the first and
the last segment the missing neighbour is the end itself. -/
def segment (depth : Depth) (points : List Point) (used : List Nat) (values : Array UInt16) (i : Nat) :
    Option (Array UInt16) := do
  let n := used.length
  let before ← used[if i = 0 then i else i - 1]?
  let start ← used[i]?
  let stop ← used[i + 1]?
  let behind ← used[if i = n - 2 then n - 1 else i + 2]?
  let a ← points[before]?
  let b ← points[start]?
  let c ← points[stop]?
  let d ← points[behind]?
  plot depth values a b c d

/-! ## Drawing -/

/-- Whether a slot is in use. Only the first coordinate of its point is looked at. -/
def inUse (points : List Point) (slot : Nat) : Bool :=
  (points[slot]?).any (·.x ≠ -1)

def used (points : List Point) : List Nat :=
  (List.range slotCount).filter (inUse points)

/-- The values of a smooth curve through the points of some slots. They are found by their numbers,
and each look at a list is checked. -/
def drawn (depth : Depth) (points : List Point) (used : List Nat) (values : Array UInt16) :
    Option (Array UInt16) :=
  match used.head?, used.getLast? with
  | some first, some last => do
    let first ← points[first]?
    let last ← points[last]?
    let values ← fill values 0 (index first.x) (level first.y)
    let values ← fill values (index last.x) values.size (level last.y)
    let values ← (List.range (used.length - 1)).foldlM (segment depth points used) values
    used.foldlM (fun values i => do
      let p ← points[i]?
      put values (index p.x) (level p.y)) values
  | _, _ => some values

def calculate (depth : Depth) (c : Curve) : Option Curve :=
  match c.kind with
  | .free => some c
  | .smooth => (drawn depth c.points (used c.points) c.values).map fun values => { c with values }

/-! ## Copies at the other depth -/

/-- A coordinate at the other depth. What is no channel value counts as zero, though no control
point has such a coordinate. -/
def coordinateAt (target : Depth) (v : Int32) : Int32 :=
  (scaled target (if 0 ≤ v.toInt ∧ v.toInt < 65536 then UInt16.ofNat v.toInt.toNat else 0)).toUInt32.toInt32

/-- Copies the point of a slot, unless it stands for an empty one. An empty slot keeps what it had,
which is how the end slots stay in use. -/
def copyPoint (target : Depth) (c : Curve) (slot : Nat) (p : Point) : Curve :=
  if -1 < p.x ∧ -1 < p.y then c.setPoint target slot ⟨coordinateAt target p.x, coordinateAt target p.y⟩
  else c

def copyPointsFrom (target : Depth) (c : Curve) (slot : Nat) : List Point → Curve
  | [] => c
  | p :: rest => copyPointsFrom target (copyPoint target c slot p) (slot + 1) rest

/-! ## Edits that draw -/

def converted (source target : Depth) (c : Curve) : Option Curve :=
  if source = target then some c else calculate target (c.rescaled target)

/-- Sets the values from a list. Only a list of the wrong length is drawn, through a curve at the depth
that it is taken to be meant for. -/
def setValues (depth : Depth) (c : Curve) (values : List Point) : Option Curve :=
  if values.isEmpty ∨ values.length = depth.segments then some (c.setValues depth values)
  else do
    let source := if values.length = Depth.eight.segments then Depth.eight else .sixteen
    let start := (linear source).setPointsFrom source 0 (samples source values)
    let sampled ← calculate source start
    let resampled ← converted source depth sampled
    some { c with values := resampled.values }

def curveOf (kind : CurveKind) (depth : Depth) (points : List Point) : Option Curve :=
  let start := { linear depth with kind := kind }
  match kind with
  | .smooth => calculate depth (start.setPoints depth points)
  | .free => setValues depth start points

/-! ## Reading -/

def map (depth : Depth) (c : Curve) (intensity : Float) : Option Float :=
  let max := depth.maxValue
  if intensity < 0.0 then do
    let low ← c.values[0]?
    some (Float32.ofNat low.toNat / Float32.ofNat max).toFloat
  else if intensity ≥ 1.0 then do
    let high ← c.values[max]?
    some (Float32.ofNat high.toNat / Float32.ofNat max).toFloat
  else do
    let place := intensity * Float.ofNat max
    let bin := Decimal.wholePart place
    let f := (place - Float.ofNat bin).toFloat32.toFloat
    let low ← c.values[bin]?
    let high ← c.values[bin + 1]?
    some (((1.0 - f) * Float.ofNat low.toNat + f * Float.ofNat high.toNat) / Float.ofNat max)

end Curve.Checked

namespace Curves.Checked

/-! ## Edits -/

/-- A curve for each channel. One that comes to nothing makes all of them come to nothing. -/
def each (f : Channel → Option Curve) : Option (PerChannel Curve) := do
  let luminosity ← f .luminosity
  let red ← f .red
  let green ← f .green
  let blue ← f .blue
  let alpha ← f .alpha
  some ⟨luminosity, red, green, blue, alpha⟩

def modify (c : Curves) (channel : Channel) (f : Depth → Curve → Option Curve) : Option Curves :=
  (f c.depth (c.channels.get channel)).map fun curve =>
    { c with channels := c.channels.set channel curve }

/-- The curves after an edit. The edits that draw nothing have no index to check, and are those of
the curves themselves. -/
def edit (c : Curves) : Edit → Option Curves
  | .ofSettings s =>
    (each fun channel => Curve.Checked.curveOf s.kind s.depth (s.lists.get channel)).map fun channels =>
      ⟨s.depth, channels⟩
  | .converted depth =>
    (each fun channel => Curve.Checked.converted c.depth depth (c.channels.get channel)).map
      fun channels => ⟨depth, channels⟩
  | .setValues channel values =>
    modify c channel fun depth curve => Curve.Checked.setValues depth curve values
  | .calculate channel => modify c channel Curve.Checked.calculate
  | .calculateAll =>
    (each fun channel => Curve.Checked.calculate c.depth (c.channels.get channel)).map fun channels =>
      { c with channels }
  | e => some (c.edit e)

def edited (depth : Depth) (edits : List Edit) : Option Curves :=
  edits.foldlM edit (new depth)

/-! ## Tables -/

def transfer (c : Curves) (component : Component) (intensity : Float32) : Option Float32 := do
  let own ← Curve.Checked.map c.depth (c.channels.get component.channel) intensity.toFloat
  match component with
  | .alpha => some own.toFloat32
  | _ => (Curve.Checked.map c.depth c.channels.luminosity own).map Float.toFloat32

def entry (c : Curves) (component : Component) (v : Nat) : Option UInt16 := do
  let max := c.depth.maxValue
  let mapped ← transfer c component (Float32.ofNat v / Float32.ofNat max)
  some (UInt16.ofNat (Arith.clampNat max (Arith.truncate (Float.ofNat max * mapped.toFloat + 0.5))))

def luts (c : Curves) : Option Luts :=
  [Component.red, .green, .blue, .alpha].foldlM
    (fun luts component =>
      (Histogram.Words.tableOf? luts.depth (entry c component)).map (luts.set component))
    (Luts.empty c.depth)

end Curves.Checked

end Darkroom
