import Darkroom.Image.Basic

/-!
# Parts, rotations and flips

Each operation here moves pixels without changing them: it is given by the position in the old image
that every position of the new one shows.
-/

namespace Darkroom.Image

/-! ## Parts -/

/-- The part of an image that covers `area`, which lies inside it. Negative corners are not
expected, and count as zero. -/
def part (image : Image) (area : Rect) : Image :=
  ofPixels ⟨area.width.toUInt32, area.height.toUInt32⟩ image.depth image.hasAlpha fun x y =>
    image.pixel (area.x.toInt.toNat + x) (area.y.toInt.toNat + y)

/-- The whole image, or its part inside a rectangle; null if they do not overlap. A rectangle that
covers the whole image gives all of it. -/
def copy (image : Image) (rect : Option Rect) : Image :=
  if image.isNull then null
  else
    let bounds := Rect.ofDimensions image.dimensions
    let area := match rect with
      | none => bounds
      | some r => r.intersected bounds
    if area.isEmpty then null
    else if area = bounds then image
    else image.part area

def crop (image : Image) (rect : Rect) : Image :=
  image.copy (some rect)

/-! ## Symmetries -/

def rotatedDimensions (image : Image) : Rotation → Dimensions
  | .half => image.dimensions
  | .quarter | .threeQuarters => ⟨image.height, image.width⟩

/-- A clockwise rotation, by the old pixel that shows at every position of the new image. -/
def rotate (image : Image) (rotation : Rotation) : Image :=
  if image.isNull then image
  else
    let w := image.width.toNat
    let h := image.height.toNat
    ofPixels (image.rotatedDimensions rotation) image.depth image.hasAlpha fun x y =>
      match rotation with
      | .quarter => image.pixel y (h - 1 - x)
      | .half => image.pixel (w - 1 - x) (h - 1 - y)
      | .threeQuarters => image.pixel (w - 1 - y) x

/-- The image with left and right, or top and bottom, swapped. The frame stays, so this can be done
in place. -/
def flip (image : Image) (axis : Flip) : Image :=
  image.mapPixels fun x y =>
    match axis with
    | .horizontal => image.pixel (image.width.toNat - 1 - x) y
    | .vertical => image.pixel x (image.height.toNat - 1 - y)

/-- Brings an image upright that was stored with an orientation code from 2 to 8. Other codes, and
the null image, give nothing. -/
def upright? (image : Image) (orientation : UInt16) : Option Image :=
  if image.isNull then none
  else match orientation.toNat with
    | 2 => some (image.flip .horizontal)
    | 3 => some (image.rotate .half)
    | 4 => some (image.flip .vertical)
    | 5 => some ((image.rotate .quarter).flip .horizontal)
    | 6 => some (image.rotate .quarter)
    | 7 => some ((image.rotate .quarter).flip .vertical)
    | 8 => some (image.rotate .threeQuarters)
    | _ => none

/-! ## Depth -/

/-- The image at another depth, each channel converted by itself. Alpha is converted like a
color. -/
def convertDepth (image : Image) (depth : Depth) : Image :=
  if image.isNull ∨ image.depth = depth then image
  else
    ofPixels image.dimensions depth image.hasAlpha fun x y =>
      ((image.color x y).toDepth depth).pixel

end Darkroom.Image
