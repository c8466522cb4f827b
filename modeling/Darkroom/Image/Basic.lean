import Darkroom.Color
import Darkroom.FilterError

/-!
# Images

An image is a size, a depth, whether it has alpha, and its bytes: the pixels row by row, a pixel as
blue, green, red and alpha. The place of alpha is kept also without it, so all pixels of a depth
take the same room. An image without bytes is the null image.

`Image.WellFormed` is what every operation of the library keeps. New images are made by
`Image.ofPixels`, which takes the pixel at every position, so an operation is given by the pixel
that it puts there.
-/

namespace Darkroom

/-- An image. Equality is equality of all fields. Not every value is an image that the operations
make; those that are satisfy `Image.WellFormed`. -/
structure Image where
  width : UInt32
  height : UInt32
  depth : Depth
  hasAlpha : Bool
  bytes : Array UInt8
  deriving DecidableEq, Inhabited

namespace Image

/-! ## Shape -/

/-- The image without pixels. It has one form only, so that being null and being this image are the
same for well-formed images. -/
def null : Image :=
  ⟨0, 0, .eight, false, #[]⟩

def isNull (image : Image) : Bool :=
  image.bytes.isEmpty

def dimensions (image : Image) : Dimensions :=
  ⟨image.width, image.height⟩

def pixelCount (image : Image) : Nat :=
  image.dimensions.pixels

def rowBytes (image : Image) : Nat :=
  image.width.toNat * image.depth.pixelBytes

/-- The bytes that pixels of a given number take; nothing when they are too many to be held. The
bound is that of a single allocation. -/
def byteLength? (d : Dimensions) (depth : Depth) : Option Nat :=
  let n := d.pixels * depth.pixelBytes
  if n < 0x8000000000000000 then some n else none

/-- Either null, or of positive size with exactly the bytes of its pixels. So there are as many
bytes as pixels need, and every pixel can be read without asking. -/
def WellFormed (image : Image) : Prop :=
  image = null ∨
    0 < image.width ∧ 0 < image.height ∧
      byteLength? image.dimensions image.depth = some image.bytes.size

def sameGeometry (a b : Image) : Bool :=
  a.width == b.width && a.height == b.height && a.depth == b.depth

/-! ## Pixels -/

/-- Where the pixel in column `x` and row `y` is stored. A column behind the last one is found in
the next row, so whoever computes an offset has to know the size. -/
def offset (image : Image) (x y : Nat) : Nat :=
  (y * image.width.toNat + x) * image.depth.pixelBytes

def pixel (image : Image) (x y : Nat) : Pixel :=
  Pixel.read image.depth image.bytes (image.offset x y)

/-- The color of the pixel in column `x` and row `y`, which can be compared with colors of other
images only if their depth is the same. -/
def color (image : Image) (x y : Nat) : Color :=
  ⟨image.pixel x y, image.depth⟩

/-- The bytes of row `y`. Rows follow each other without a gap. -/
def row (image : Image) (y : Nat) : Array UInt8 :=
  image.bytes.extract (y * image.rowBytes) ((y + 1) * image.rowBytes)

/-! ## New images -/

/-- The bytes of pixels given by column and row. Each byte is found by itself from the pixel that it
belongs to, so there is nothing to carry along from one to the next. -/
def pixelBytes (width height : Nat) (depth : Depth) (f : Nat → Nat → Pixel) : Array UInt8 :=
  Array.ofFn fun i : Fin (width * height * depth.pixelBytes) =>
    let p := i.val / depth.pixelBytes
    (f (p % width) (p / width)).byte depth (i.val % depth.pixelBytes)

/-- The image with the pixel `f x y` in column `x` and row `y`; null when it would have no pixels or
too many. -/
def ofPixels (d : Dimensions) (depth : Depth) (hasAlpha : Bool) (f : Nat → Nat → Pixel) : Image :=
  match byteLength? d depth with
  | none => null
  | some n =>
    if n = 0 then null
    else ⟨d.width, d.height, depth, hasAlpha, pixelBytes d.width.toNat d.height.toNat depth f⟩

def zeros (d : Dimensions) (depth : Depth) (hasAlpha : Bool) : Image :=
  ofPixels d depth hasAlpha fun _ _ => ⟨0, 0, 0, 0⟩

/-- An image with given bytes; null when their number is not that of the pixels. Nothing else can be
wrong with bytes, as any bytes are pixels. -/
def ofBytes (d : Dimensions) (depth : Depth) (hasAlpha : Bool) (bytes : Array UInt8) : Image :=
  if byteLength? d depth = some bytes.size ∧ 0 < bytes.size then
    ⟨d.width, d.height, depth, hasAlpha, bytes⟩
  else null

def filled (d : Dimensions) (hasAlpha : Bool) (c : Color) : Image :=
  ofPixels d c.depth hasAlpha fun _ _ => c.pixel

/-! ## Writing pixels -/

/-- The image with other pixels in the same frame. A null image stays null. What depends on the old
pixels reads them from the old image, so the order of writing does not matter. -/
def mapPixels (image : Image) (f : Nat → Nat → Pixel) : Image :=
  if image.isNull then image
  else
    { image with
      bytes := pixelBytes image.width.toNat image.height.toNat image.depth f }

/-- The image with one color, converted to its depth, in column `x` and row `y`. A position outside
changes nothing. -/
def setPixel (image : Image) (x y : Nat) (c : Color) : Image :=
  let p := (c.toDepth image.depth).pixel
  image.mapPixels fun i j => if i = x ∧ j = y then p else image.pixel i j

def fill (image : Image) (c : Color) : Image :=
  let p := (c.toDepth image.depth).pixel
  image.mapPixels fun _ _ => p

def setByte (image : Image) (index : Nat) (value : UInt8) : Image :=
  { image with bytes := image.bytes.setIfInBounds index value }

end Image

end Darkroom
