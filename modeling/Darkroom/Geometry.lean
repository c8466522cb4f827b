/-!
# Points, rectangles and sizes

Coordinates are signed 32-bit numbers. The far edges of a rectangle saturate at the ends of that
range, and a rectangle without a positive width and height is empty.
-/

namespace Darkroom

/-- An integer position. A point of a curve has the input level as `x` and the output level as `y`.
Any two coordinates make a point, inside or outside of an image. -/
structure Point where
  x : Int32
  y : Int32
  deriving DecidableEq, Inhabited

/-- A rectangle with its top left corner at `(x, y)`. Any four numbers make one; what has no
positive width and height is empty wherever it is. -/
structure Rect where
  x : Int32
  y : Int32
  width : Int32
  height : Int32
  deriving DecidableEq, Inhabited

structure Dimensions where
  width : UInt32
  height : UInt32
  deriving DecidableEq, Inhabited

namespace Dimensions

def text (d : Dimensions) : String :=
  s!"{d.width.toNat}x{d.height.toNat}"

/-- The number of pixels. It is a natural number, as the product of two sizes may not fit into a
word. -/
def pixels (d : Dimensions) : Nat :=
  d.width.toNat * d.height.toNat

end Dimensions

/-- The sum of two coordinates, kept within their range. So far edges stay comparable where the
exact ones would leave the range. -/
def saturatingAdd (a b : Int32) : Int32 :=
  Int32.ofIntClamp (a.toInt + b.toInt)

def saturatingSub (a b : Int32) : Int32 :=
  Int32.ofIntClamp (a.toInt - b.toInt)

namespace Rect

/-- The rectangle that covers a whole image. Sizes from 2 ^ 31 on wrap to negative ones, so for them
it covers nothing. -/
def ofDimensions (d : Dimensions) : Rect :=
  ⟨0, 0, d.width.toInt32, d.height.toInt32⟩

def isEmpty (r : Rect) : Bool :=
  r.width ≤ 0 || r.height ≤ 0

/-- One past the last column. A rectangle that would reach beyond the range loses its last columns
by this. -/
def right (r : Rect) : Int32 :=
  saturatingAdd r.x r.width

def bottom (r : Rect) : Int32 :=
  saturatingAdd r.y r.height

/-- Whether a point lies in a rectangle. The far edges do not belong to it, so rectangles side by
side share no point. -/
def contains (r : Rect) (p : Point) : Bool :=
  r.x ≤ p.x && p.x < r.right && r.y ≤ p.y && p.y < r.bottom

/-- The part that two rectangles share; the empty rectangle at the origin if there is none. It is
computed from the edges, so a rectangle of negative size shares nothing. -/
def intersected (a b : Rect) : Rect :=
  let x := max a.x b.x
  let y := max a.y b.y
  let right := min a.right b.right
  let bottom := min a.bottom b.bottom
  if right ≤ x ∨ bottom ≤ y then ⟨0, 0, 0, 0⟩
  else ⟨x, y, saturatingSub right x, saturatingSub bottom y⟩

end Rect

/-- A clockwise rotation by quarter turns. -/
inductive Rotation where
  | quarter
  | half
  | threeQuarters
  deriving DecidableEq

/-- What a flip swaps: `horizontal` swaps left and right. -/
inductive Flip where
  | horizontal
  | vertical
  deriving DecidableEq

end Darkroom
