import Darkroom.Image.Bytes
import Darkroom.Image.Edit

/-!
# Operations with checked indices

Every operation on images once more, as the loops over stored bytes that it is made of. Each loop
computes its own indices from sizes, and one index outside the stored bytes of an image makes the
whole operation give nothing.
-/

namespace Darkroom.Image

/-- The columns and rows of a part of an image, row by row. Loops over pixels take them in this
order. -/
def positions (x y width height : Nat) : List (Nat × Nat) :=
  (List.range height).flatMap fun j => (List.range width).map fun i => (x + i, y + j)

namespace Checked

def withBytes (image : Image) (bytes : Option (Array UInt8)) : Option Image :=
  bytes.map fun bytes => { image with bytes }

/-! ## Pixels -/

def pixel (image : Image) (x y : Nat) : Option Pixel :=
  Bytes.pixel? image.depth image.bytes (image.offset x y)

/-- Changes the pixels at some positions one after the other. Each change is given its position and
the pixel as it is at that moment. -/
def changeAt (image : Image) (places : List (Nat × Nat)) (f : Nat → Nat → Pixel → Option Pixel) :
    Option Image :=
  withBytes image (places.foldlM (fun bytes (x, y) => do
    let old ← Bytes.pixel? image.depth bytes (image.offset x y)
    let new ← f x y old
    Bytes.putPixel? image.depth bytes (image.offset x y) new) image.bytes)

/-- One color in column `x` and row `y`. The index is not compared with the size, only with the
number of bytes, so a column behind the last one is found in the next row. -/
def setPixel (image : Image) (x y : Nat) (c : Color) : Option Image :=
  withBytes image
    (Bytes.putPixel? image.depth image.bytes (image.offset x y) (c.toDepth image.depth).pixel)

def fill (image : Image) (c : Color) : Option Image :=
  let p := (c.toDepth image.depth).pixel
  withBytes image (Bytes.eachChunk? image.depth.pixelBytes
    (fun _ chunk => Bytes.putPixel? image.depth chunk 0 p) image.bytes)

def filled (d : Dimensions) (hasAlpha : Bool) (c : Color) : Option Image :=
  fill (zeros d c.depth hasAlpha) c

/-! ## Parts -/

/-- The part of an image that covers `area`, copied row by row into zeros. Each row of the part lies
inside one row of the image. -/
def part (image : Image) (area : Rect) : Option Image :=
  let new := zeros ⟨area.width.toUInt32, area.height.toUInt32⟩ image.depth image.hasAlpha
  if new.isNull then some new
  else
    withBytes new (Bytes.eachChunk? new.rowBytes (fun row _ =>
      Bytes.slice? image.bytes
        ((area.y.toInt.toNat + row) * image.rowBytes
          + area.x.toInt.toNat * image.depth.pixelBytes)
        new.rowBytes) new.bytes)

def copy (image : Image) (rect : Option Rect) : Option Image :=
  if image.isNull then some null
  else
    let bounds := Rect.ofDimensions image.dimensions
    let area := match rect with
      | none => bounds
      | some r => r.intersected bounds
    if area.isEmpty then some null
    else if area = bounds then some image
    else part image area

/-! ## Placing -/

/-- Copies a region row by row. Source and target have the same depth, so a row of one is a row of
the other. -/
def blitRegion (target source : Image) (region : Region) : Option Image :=
  let length := region.width * target.depth.pixelBytes
  withBytes target ((List.range region.height).foldlM (fun bytes row => do
    let part ← Bytes.slice? source.bytes
      ((region.sourceY + row) * source.rowBytes + region.sourceX * target.depth.pixelBytes) length
    Bytes.put? bytes
      ((region.targetY + row) * target.rowBytes + region.targetX * target.depth.pixelBytes) part)
    target.bytes)

def blendRegion (target source : Image) (region : Region) : Option Image :=
  changeAt target (positions region.targetX region.targetY region.width region.height)
    fun x y lower => do
      let upper ← pixel source (region.sourceX + (x - region.targetX))
        (region.sourceY + (y - region.targetY))
      some (Pixel.layered target.depth.maxValue upper lower)

def place (work : Region → Option Image) (target source : Image) (rect : Rect) (corner : Point) :
    Option (Except FilterError Image) :=
  match placeFault? target source with
  | some fault => some (.error fault)
  | none =>
    match clip rect corner source.dimensions target.dimensions with
    | none => some (.ok target)
    | some region => (work region).map .ok

def blit (target source : Image) (rect : Rect) (corner : Point) :
    Option (Except FilterError Image) :=
  place (blitRegion target source) target source rect corner

def blend (target source : Image) (rect : Rect) (corner : Point) :
    Option (Except FilterError Image) :=
  place (blendRegion target source) target source rect corner

/-! ## Symmetries -/

/-- Where a rotation moves the pixel in column `x` and row `y`. The rotation of an image is given
the other way around, by the old pixel that shows at a new position. -/
def rotated (image : Image) (rotation : Rotation) (x y : Nat) : Nat × Nat :=
  match rotation with
  | .quarter => (image.height.toNat - 1 - y, x)
  | .half => (image.width.toNat - 1 - x, image.height.toNat - 1 - y)
  | .threeQuarters => (y, image.width.toNat - 1 - x)

/-- A clockwise rotation: every pixel is moved into zeros. As a rotation moves no two pixels to one
place, none of the zeros is left. -/
def rotate (image : Image) (rotation : Rotation) : Option Image :=
  if image.isNull then some image
  else
    let size := image.depth.pixelBytes
    let d := image.rotatedDimensions rotation
    let bytes := (List.range (image.bytes.size / size)).foldlM (fun bytes k => do
      let part ← Bytes.slice? image.bytes (k * size) size
      let (x, y) := rotated image rotation (k % image.width.toNat) (k / image.width.toNat)
      Bytes.put? bytes ((y * d.width.toNat + x) * size) part)
      (Array.replicate image.bytes.size 0)
    withBytes { image with width := d.width, height := d.height } bytes

/-- A row with its bytes reversed, and the bytes of each pixel reversed again. This puts the pixels
in the opposite order and leaves each of them as it is. -/
def mirrorRow (depth : Depth) (row : Array UInt8) : Option (Array UInt8) :=
  Bytes.eachChunk? depth.pixelBytes (fun _ chunk => some chunk.reverse) row.reverse

/-- Exchanges row `y` with its counterpart from the bottom. The bytes are split in front of the
latter. -/
def exchangeRows (stride rows : Nat) (bytes : Array UInt8) (y : Nat) : Option (Array UInt8) := do
  let split := (rows - 1 - y) * stride
  let top ← Bytes.slice? (bytes.extract 0 split) (y * stride) stride
  let bottom ← Bytes.slice? bytes split stride
  let bytes ← Bytes.put? bytes (y * stride) bottom
  Bytes.put? bytes split top

/-- The image with left and right, or top and bottom, swapped in place. Rows are mirrored one by
one, or exchanged in pairs from the outside. -/
def flip (image : Image) (axis : Flip) : Option Image :=
  if image.isNull then some image
  else
    let stride := image.rowBytes
    match axis with
    | .horizontal =>
      withBytes image (Bytes.eachChunk? stride (fun _ => mirrorRow image.depth) image.bytes)
    | .vertical =>
      let rows := image.bytes.size / stride
      withBytes image ((List.range (rows / 2)).foldlM (exchangeRows stride rows) image.bytes)

/-- Brings an image upright. The inner `none` stands for an image that is left alone. -/
def upright (image : Image) (orientation : UInt16) : Option (Option Image) :=
  if image.isNull then some none
  else match orientation.toNat with
    | 2 => (flip image .horizontal).map some
    | 3 => (rotate image .half).map some
    | 4 => (flip image .vertical).map some
    | 5 => do
      let turned ← rotate image .quarter
      (flip turned .horizontal).map some
    | 6 => (rotate image .quarter).map some
    | 7 => do
      let turned ← rotate image .quarter
      (flip turned .vertical).map some
    | 8 => (rotate image .threeQuarters).map some
    | _ => some none

/-! ## Alpha, depth and size -/

def removeAlpha (image : Image) (background : Color) : Option Image :=
  if image.isNull ∨ ¬image.hasAlpha then some image
  else
    let max := image.depth.maxValue
    let lower := { (background.toDepth image.depth).pixel with alpha := UInt16.ofNat max }
    withBytes { image with hasAlpha := false }
      (Bytes.eachPixel? image.depth (Pixel.layered max · lower) image.bytes)

def rescale (depth : Depth) (v : UInt16) : UInt16 :=
  match depth with
  | .eight => downscale v
  | .sixteen => upscale v

/-- The image at another depth; null when its bytes would be too many to be held. Values are
converted as they follow each other, without looking at pixels. -/
def convertDepth (image : Image) (depth : Depth) : Option Image :=
  if image.isNull ∨ image.depth = depth then some image
  else if (byteLength? image.dimensions depth).isNone then some null
  else do
    let values ← Bytes.values? image.depth image.bytes
    some { image with depth, bytes := Bytes.ofValues depth (values.map (rescale depth)) }

/-- A resized copy. The resampled values are wrapped as new bytes, which gives null if their number
is not that of the new size. -/
def resize (image : Image) (d : Dimensions) : Option Image :=
  if image.isNull ∨ d.width = 0 ∨ d.height = 0 then some null
  else if d = image.dimensions then some image
  else do
    let values ← Bytes.values? image.depth image.bytes
    if values.length < image.pixelCount * 4 then some null
    else
      let samples := (values.map fun v => Float32.ofNat v.toNat).toArray
      let both := resampled image.width.toNat image.height.toNat d.width.toNat d.height.toNat samples
      let values := both.toList.map (sampleValue image.depth.maxValue)
      some (ofBytes d image.depth image.hasAlpha (Bytes.ofValues image.depth values))

end Checked

/-! ## Edits -/

/-- The image that an edit makes of an image by itself. It follows `Edit.result` edit by edit. -/
def Edit.checked (image : Image) : Edit → Option Image
  | load new => some new
  | copyFrom source rect => Checked.copy source rect
  | crop rect => Checked.copy image (some rect)
  | setPixel x y color => Checked.setPixel image x y color
  | fill color => Checked.fill image color
  | setByte index value => Checked.withBytes image (Bytes.put? image.bytes index #[value])
  | blit source rect corner =>
    (Checked.blit image source rect corner).map fun result => result.toOption.getD image
  | blend source rect corner =>
    (Checked.blend image source rect corner).map fun result => result.toOption.getD image
  | rotate rotation => Checked.rotate image rotation
  | flip axis => Checked.flip image axis
  | upright orientation => (Checked.upright image orientation).map (·.getD image)
  | removeAlpha background => Checked.removeAlpha image background
  | convertDepth depth => Checked.convertDepth image depth
  | resize d => Checked.resize image d

/-- Whether the single pixel or byte that an edit sets lies in an image. Other edits take care of
this themselves. -/
def Edit.InRange (image : Image) : Edit → Prop
  | setPixel x y _ => x < image.width.toNat ∧ y < image.height.toNat
  | setByte index _ => index < image.bytes.size
  | _ => True

end Darkroom.Image
