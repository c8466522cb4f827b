import Darkroom.Arithmetic
import Darkroom.Geometry
import Darkroom.Tone.Luts

/-!
# Curves

A curve has one value for each input level. The values of a smooth curve are drawn through up to
seventeen control points, those of a free curve are set one by one. A control point sits in a
numbered slot, which may be empty; seen from outside, an empty slot is the point `(-1, -1)`.

`Curve.WellFormed` is what every operation on a curve keeps: a full table of values and control
points, all of them within the range of the depth.
-/

namespace Darkroom

/-- Where the values of a curve come from. A free curve keeps its control points, but they do
nothing. -/
inductive CurveKind where
  | smooth
  | free
  deriving DecidableEq

/-- A control point, with the level as `x` and the value there as `y`. Unlike a point it cannot
stand for an empty slot. -/
structure Knot where
  x : UInt16
  y : UInt16
  deriving DecidableEq

/-- A curve for one channel. Values are only drawn when asked for, so between two edits they may be
those of earlier control points. -/
structure Curve where
  kind : CurveKind
  slots : List (Option Knot)
  values : Array UInt16
  deriving DecidableEq

namespace Knot

def point (k : Knot) : Point :=
  ⟨k.x.toUInt32.toInt32, k.y.toUInt32.toInt32⟩

def fits (depth : Depth) (k : Knot) : Prop :=
  k.x.toNat ≤ depth.maxValue ∧ k.y.toNat ≤ depth.maxValue

/-- A point as a control point, if it lies within the range of a depth. One outside is refused and
not brought inside. -/
def ofPoint? (depth : Depth) (p : Point) : Option Knot :=
  let max : Int := depth.maxValue
  let x := p.x.toInt
  let y := p.y.toInt
  if 0 ≤ x ∧ x ≤ max ∧ 0 ≤ y ∧ y ≤ max then some ⟨UInt16.ofNat x.toNat, UInt16.ofNat y.toNat⟩
  else none

end Knot

namespace Curve

def slotCount : Nat := 17

/-- The point that stands for an empty slot. It lies outside of every range, so no control point is
taken for it. -/
def emptyPoint : Point :=
  ⟨-1, -1⟩

/-- A full table of values and seventeen slots, all within the range of the depth. Nothing is asked
of the order of the control points. -/
def WellFormed (depth : Depth) (c : Curve) : Prop :=
  c.values.size = depth.segments ∧
    (∀ v ∈ c.values, v.toNat ≤ depth.maxValue) ∧
    c.slots.length = slotCount ∧
    ∀ k, some k ∈ c.slots → k.fits depth

/-- The smooth curve that changes nothing, drawn between its two end points, which take up the first
and the last slot. -/
def linear (depth : Depth) : Curve :=
  let max := UInt16.ofNat depth.maxValue
  { kind := .smooth
    slots := some ⟨0, 0⟩ :: List.replicate (slotCount - 2) none ++ [some ⟨max, max⟩]
    values := Luts.tableOf depth id }

/-- Linear values and the two end points; the kind is kept, so a free curve stays free. -/
def reset (depth : Depth) (c : Curve) : Curve :=
  { linear depth with kind := c.kind }

/-! ## Control points -/

def knots (c : Curve) : List Knot :=
  c.slots.filterMap id

def slotPoint : Option Knot → Point
  | none => emptyPoint
  | some k => k.point

def point (c : Curve) (slot : Nat) : Point :=
  slotPoint (c.slots[slot]?.join)

def points (c : Curve) : List Point :=
  c.slots.map slotPoint

/-- Sets a slot. A point with `x = -1` empties it, whatever its `y`. A point outside the range of the
depth is ignored, and so is a slot that does not exist. -/
def setPoint (depth : Depth) (c : Curve) (slot : Nat) (p : Point) : Curve :=
  if p.x = -1 then { c with slots := c.slots.set slot none }
  else match Knot.ofPoint? depth p with
    | none => c
    | some k => { c with slots := c.slots.set slot (some k) }

/-- Sets slots in order from a given one on. Points that are left when there are no more slots are
ignored. -/
def setPointsFrom (depth : Depth) (c : Curve) (slot : Nat) : List Point → Curve
  | [] => c
  | p :: rest => (c.setPoint depth slot p).setPointsFrom depth (slot + 1) rest

/-- Sets the control points. A full list is taken as it is. Any other list first resets the curve; a
single point then goes to the middle, and of several points the last goes to the last slot and the
others to the leading ones. -/
def setPoints (depth : Depth) (c : Curve) (points : List Point) : Curve :=
  if slotCount ≤ points.length then c.setPointsFrom depth 0 (points.take slotCount)
  else match points with
    | [] => c.reset depth
    | [p] => (c.reset depth).setPoint depth (slotCount / 2) p
    | p :: q :: rest =>
      ((c.reset depth).setPointsFrom depth 0 (p :: q :: rest).dropLast).setPoint depth
        (slotCount - 1) ((q :: rest).getLastD p)

/-! ## Values -/

def value (c : Curve) (bin : Nat) : UInt16 :=
  c.values.getD bin 0

def bounded (depth : Depth) (v : Int) : UInt16 :=
  UInt16.ofNat (Arith.clampNat depth.maxValue v)

/-- Sets the value at an input level, kept within the range of the depth. A level that does not
exist is ignored. -/
def setValue (depth : Depth) (c : Curve) (bin : Nat) (v : Int) : Curve :=
  { c with values := c.values.setIfInBounds bin (bounded depth v) }

/-- The values as points, with the input level as `x`. This is the form in which settings and
actions hold a free curve. -/
def valuePoints (c : Curve) : List Point :=
  c.values.toList.zipIdx.map fun (v, bin) => ⟨Int32.ofNat bin, v.toUInt32.toInt32⟩

/-! ## Linear curves -/

/-- Whether control points are nothing but the two end points, in this order, the second of which may
be missing. -/
def onlyEnds (max : UInt16) : List Knot → Bool
  | [] => true
  | [first] => first = ⟨0, 0⟩
  | [first, last] => first = ⟨0, 0⟩ && last = ⟨max, max⟩
  | _ => false

/-- Whether a curve counts as one that changes nothing: a smooth one by its control points, a free one
by all its values but the last. -/
def isLinear (depth : Depth) (c : Curve) : Bool :=
  match c.kind with
  | .smooth => onlyEnds (UInt16.ofNat depth.maxValue) c.knots
  | .free => (c.values.toList.take depth.maxValue).zipIdx.all fun (v, bin) => v.toNat = bin

end Curve

end Darkroom
