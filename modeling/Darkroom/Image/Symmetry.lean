import Darkroom.Image.Transform

/-!
# Symmetries of the rectangle

There are eight ways to lay a rectangle of pixels onto a rectangle: columns and rows change places
or not, and then each axis of the old rectangle runs forward or backward. Every rotation, flip and
orientation code is one of them. An image is moved by a symmetry as a whole, whatever its size.
-/

namespace Darkroom

/-- A symmetry, by the old position that shows at a new one: columns and rows change places or not,
and then each is counted from its far end or not. -/
structure Symmetry where
  transposes : Bool
  mirrorsX : Bool
  mirrorsY : Bool
  deriving DecidableEq

namespace Symmetry

def identity : Symmetry :=
  ⟨false, false, false⟩

def frame (s : Symmetry) (d : Dimensions) : Dimensions :=
  if s.transposes then ⟨d.height, d.width⟩ else d

/-- A place on an axis, counted from the far end or not. Twice the same way gives the place
itself. -/
def along (mirrors : Bool) (size place : Nat) : Nat :=
  if mirrors then size - 1 - place else place

/-- The old column and row that show in column `x` and row `y`. It goes from new to old, because
this is how the new image is filled. -/
def shown (s : Symmetry) (d : Dimensions) (x y : Nat) : Nat × Nat :=
  (along s.mirrorsX d.width.toNat (if s.transposes then y else x),
    along s.mirrorsY d.height.toNat (if s.transposes then x else y))

/-- One symmetry and then another. The second one counts along the axes that the first one leaves.
-/
def andThen (s t : Symmetry) : Symmetry where
  transposes := s.transposes != t.transposes
  mirrorsX := s.mirrorsX != if s.transposes then t.mirrorsY else t.mirrorsX
  mirrorsY := s.mirrorsY != if s.transposes then t.mirrorsX else t.mirrorsY

def ofRotation : Rotation → Symmetry
  | .quarter => ⟨true, false, true⟩
  | .half => ⟨false, true, true⟩
  | .threeQuarters => ⟨true, true, false⟩

def ofFlip : Flip → Symmetry
  | .horizontal => ⟨false, true, false⟩
  | .vertical => ⟨false, false, true⟩

/-- The symmetry that an orientation code from 2 to 8 stands for. Code 1 stands for an upright
image, and other numbers for nothing, so there is nothing to do for either. -/
def ofOrientation? (code : Nat) : Option Symmetry :=
  match code with
  | 2 => some (ofFlip .horizontal)
  | 3 => some (ofRotation .half)
  | 4 => some (ofFlip .vertical)
  | 5 => some ⟨true, false, false⟩
  | 6 => some (ofRotation .quarter)
  | 7 => some ⟨true, true, true⟩
  | 8 => some (ofRotation .threeQuarters)
  | _ => none

end Symmetry

/-- The orientation code that undoes another one. All codes but the two quarter turns undo
themselves. -/
def inverseOrientation (code : UInt16) : UInt16 :=
  if code = 6 then 8 else if code = 8 then 6 else code

namespace Image

/-- A new frame in which every position shows the old pixel at a given position. Pixels may be shown
more than once or not at all; a symmetry shows each of them once. -/
def rearranged (image : Image) (d : Dimensions) (place : Nat → Nat → Nat × Nat) : Image :=
  ofPixels d image.depth image.hasAlpha fun x y => image.pixel (place x y).1 (place x y).2

/-- An image moved by a symmetry, in the frame that the symmetry gives it. -/
def moved (image : Image) (s : Symmetry) : Image :=
  image.rearranged (s.frame image.dimensions) (s.shown image.dimensions)

end Image

end Darkroom
