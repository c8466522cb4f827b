import Darkroom.Image.Basic

/-!
# Rasters

A raster is an image as image files hold it: gray or red, green and blue, with or without alpha, and
with samples of 8 or 16 bits or single-precision fractions. Every raster can be made an image; gray
goes to all three colors, and where there is no alpha it is full. An image is made a raster of the
same depth.
-/

namespace Darkroom

/-- Which samples a pixel of a raster has. Their order is that of the names, with red first. -/
inductive Layout where
  | gray
  | grayAlpha
  | rgb
  | rgba
  deriving DecidableEq

namespace Layout

def size : Layout → Nat
  | gray => 1
  | grayAlpha => 2
  | rgb => 3
  | rgba => 4

def hasAlpha : Layout → Bool
  | gray | rgb => false
  | grayAlpha | rgba => true

end Layout

/-- The samples of a raster, row by row. All samples of a raster are of one kind. -/
inductive Samples where
  | eight (values : Array UInt8)
  | sixteen (values : Array UInt16)
  | fraction (values : Array Float32)

namespace Samples

/-- A fraction of the range as a 16-bit value, to the nearest. No number counts as the whole range,
like a fraction above it. -/
def ofFraction (v : Float32) : UInt16 :=
  if v.isNaN then 65535
  else if v < 0.0 then 0
  else if v > 1.0 then 65535
  else (v * 65535.0).round.toUInt16

/-- The depth of an image that can hold the samples. Fractions are finer than any depth, so they go
to the larger one. -/
def depth : Samples → Depth
  | eight _ => .eight
  | sixteen _ | fraction _ => .sixteen

def count : Samples → Nat
  | eight values => values.size
  | sixteen values => values.size
  | fraction values => values.size

/-- A sample at the depth of the image. One that is not there counts as zero. -/
def channel (s : Samples) (i : Nat) : UInt16 :=
  match s with
  | eight values => (values.getD i 0).toUInt16
  | sixteen values => values.getD i 0
  | fraction values => ofFraction (values.getD i 0.0)

/-- The samples of a depth given by their position. At 8 bits the values are to be channel values of
that depth. -/
def ofFn (depth : Depth) (n : Nat) (f : Nat → UInt16) : Samples :=
  match depth with
  | .eight => eight (Array.ofFn fun i : Fin n => (f i.val).toUInt8)
  | .sixteen => sixteen (Array.ofFn fun i : Fin n => f i.val)

/-- The samples with 8 bits, as the formats need that hold no others. Fractions are rounded twice,
first to 16 bits. -/
def reduced : Samples → Samples
  | eight values => eight values
  | sixteen values => eight (values.map fun v => (downscale v).toUInt8)
  | fraction values => eight (values.map fun v => (downscale (ofFraction v)).toUInt8)

end Samples

/-- An image as image files hold it. The number of samples should be that of the pixels, which a
decoder sees to. -/
structure Raster where
  width : UInt32
  height : UInt32
  layout : Layout
  samples : Samples

namespace Raster

/-- The pixel that a raster shows at an index. Red and blue change places here, since the stored
pixels of an image start with blue. -/
def pixelAt (r : Raster) (index : Nat) : Pixel :=
  let sample (i : Nat) : UInt16 := r.samples.channel (index * r.layout.size + i)
  let full := UInt16.ofNat r.samples.depth.maxValue
  match r.layout with
  | .gray => ⟨sample 0, sample 0, sample 0, full⟩
  | .grayAlpha => ⟨sample 0, sample 0, sample 0, sample 1⟩
  | .rgb => ⟨sample 2, sample 1, sample 0, full⟩
  | .rgba => ⟨sample 2, sample 1, sample 0, sample 3⟩

/-- The image that a raster shows. Whether it has alpha is a matter of the layout; without alpha the
byte for it is full. -/
def toImage (r : Raster) : Image :=
  Image.ofPixels ⟨r.width, r.height⟩ r.samples.depth r.layout.hasAlpha fun x y =>
    r.pixelAt (y * r.width.toNat + x)

/-- The sample of a pixel at a position from 0 to 3, in the order of rasters, which begins with
red. -/
def sampleOf (p : Pixel) : Nat → UInt16
  | 0 => p.red
  | 1 => p.green
  | 2 => p.blue
  | _ => p.alpha

/-- An image as a raster of the same depth, without alpha if the image has none. The null image is
no raster, as files have to have a size. -/
def ofImage? (image : Image) : Option Raster :=
  if image.isNull then none
  else
    let layout := if image.hasAlpha then Layout.rgba else .rgb
    let samples := Samples.ofFn image.depth (image.pixelCount * layout.size) fun i =>
      let index := i / layout.size
      let p := image.pixel (index % image.width.toNat) (index / image.width.toNat)
      sampleOf p (i % layout.size)
    some ⟨image.width, image.height, layout, samples⟩

/-- A raster without its alpha, which is left away and not blended onto anything. Gray becomes three
equal colors. -/
def opaqueColors (r : Raster) : Raster :=
  let pixels := r.width.toNat * r.height.toNat
  { r with
    layout := .rgb
    samples := Samples.ofFn r.samples.depth (pixels * 3) fun i => sampleOf (r.pixelAt (i / 3)) (i % 3) }

def reduced (r : Raster) : Raster :=
  { r with samples := r.samples.reduced }

end Raster

end Darkroom
