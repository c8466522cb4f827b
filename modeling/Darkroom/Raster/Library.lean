import Darkroom.Image.Bytes
import Darkroom.Raster.Basic

/-!
# Rasters in the hands of a library

Files are decoded and encoded by a library, and images become rasters and rasters images through what
the library offers: the samples of a raster with or without alpha, and a raster made of samples. The
rest is the order of the samples, which start with red in a raster and with blue in an image, and the
bytes of those with 16 bits, the low one first.
-/

namespace Darkroom.Raster

/-! ## Orders of samples -/

/-- Exchanges the first and the third of every four values. This turns red to blue into blue to red,
and is its own inverse. -/
def exchanged {α : Type} : List α → List α
  | first :: second :: third :: fourth :: rest =>
    third :: second :: first :: fourth :: exchanged rest
  | _ => []

def words : List UInt8 → List UInt16
  | low :: high :: rest => Pixel.word low high :: words rest
  | _ => []

/-- The samples of a raster with `size` of them for each pixel, out of red, green, blue and alpha.
With fewer than four the last ones are left away. -/
def samplesOf (r : Raster) (size : Nat) : Samples :=
  Samples.ofFn r.samples.depth (r.width.toNat * r.height.toNat * size) fun i =>
    sampleOf (r.pixelAt (i / size)) (i % size)

/-- A raster with red, green and blue, with or without alpha, and with all samples of 8 or 16 bits.
These are the rasters that images are made into. -/
structure Colored (r : Raster) : Prop where
  layout : r.layout = .rgb ∨ r.layout = .rgba
  integral : ∀ values, r.samples ≠ .fraction values
  count : r.samples.count = r.width.toNat * r.height.toNat * r.layout.size

/-- What a library for rasters offers. It is left open which library it is; what is relied on is in
`Library.Lawful`. -/
structure Library where
  rgba8 : Raster → Array UInt8
  rgba16 : Raster → Array UInt16
  rgb8 : Raster → Array UInt8
  rgb16 : Raster → Array UInt16
  /-- A raster with alpha, made of its samples. -/
  ofSamples? : UInt32 → UInt32 → Samples → Option Raster

namespace Library

/-- A library gives the samples that a raster shows: without alpha it only leaves it away, and where
there is none it adds a full one. A raster made of samples has them all. -/
structure Lawful (library : Library) : Prop where
  rgba8 : ∀ r : Raster, r.Colored → r.samples.depth = .eight →
    Samples.eight (library.rgba8 r) = r.samplesOf 4
  rgba16 : ∀ r : Raster, r.Colored → r.samples.depth = .sixteen →
    Samples.sixteen (library.rgba16 r) = r.samplesOf 4
  rgb8 : ∀ r : Raster, r.Colored → r.samples.depth = .eight →
    Samples.eight (library.rgb8 r) = r.samplesOf 3
  rgb16 : ∀ r : Raster, r.Colored → r.samples.depth = .sixteen →
    Samples.sixteen (library.rgb16 r) = r.samplesOf 3
  ofSamples? : ∀ (width height : UInt32) (samples : Samples),
    samples.count = width.toNat * height.toNat * 4 →
      library.ofSamples? width height samples = some ⟨width, height, .rgba, samples⟩

/-! ## Conversions -/

variable (library : Library)

/-- The image that a raster shows, through the samples that the library gives. They always have
alpha, so an image without it has room for it as well. -/
def toImage (r : Raster) : Image :=
  let bytes := match r.samples.depth with
    | .eight => exchanged (library.rgba8 r).toList
    | .sixteen => (exchanged (library.rgba16 r).toList).flatMap (Bytes.ofValue .sixteen)
  Image.ofBytes ⟨r.width, r.height⟩ r.samples.depth r.layout.hasAlpha bytes.toArray

/-- The samples of an image with alpha, in the order of a raster. Bytes that do not make up a pixel
are left away, which a well-formed image has none of. -/
def samplesFrom (image : Image) : Samples :=
  match image.depth with
  | .eight => .eight (exchanged image.bytes.toList).toArray
  | .sixteen => .sixteen (exchanged (words image.bytes.toList)).toArray

def withoutAlpha (depth : Depth) (r : Raster) : Raster :=
  match depth with
  | .eight => { r with layout := .rgb, samples := .eight (library.rgb8 r) }
  | .sixteen => { r with layout := .rgb, samples := .sixteen (library.rgb16 r) }

/-- An image as a raster of the same depth, without alpha if the image has none. The raster is made
with alpha first, since all images have room for it. -/
def ofImage? (image : Image) : Option Raster :=
  if image.isNull then none
  else do
    let r ← library.ofSamples? image.width image.height (samplesFrom image)
    some (if image.hasAlpha then r else library.withoutAlpha image.depth r)

end Library

end Darkroom.Raster
