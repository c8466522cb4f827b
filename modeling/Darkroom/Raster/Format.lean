import Darkroom.Raster.Basic

/-!
# Image files

What is left of an image when it is written to a file and read back. PNG keeps all; BMP and WebP keep
8 bits; JPEG drops alpha as well, and its colors come back only roughly. Files of other formats are
known by their extension but cannot be written.

Formats bound the sides of an image, and the bound of a reader may be the lower one: WebP files with a
side of 16384 and BMP files with a side beyond 65535 are written and then refused.
-/

namespace Darkroom

/-- The formats of image files. Those that cannot be written are one case, as nothing here tells
them apart. -/
inductive FileFormat where
  | png
  | jpeg
  | bmp
  | webp
  /-- A format that cannot be written. -/
  | foreign
  deriving DecidableEq

/-- Why an image cannot be written or read. Failures of the device are not among them. -/
inductive FileError where
  /-- The format is not known, or cannot hold the image. -/
  | format
  /-- No file can have such a name. -/
  | name
  /-- There is no such file. -/
  | absent
  /-- The image holds no pixels. -/
  | nullImage
  deriving DecidableEq

/-- A file: its format, and what it holds of an image, up to the loss of JPEG, which is not
described here. For the other formats this is exact. -/
structure ImageFile where
  format : FileFormat
  raster : Raster

def Raster.isWithin (r : Raster) : Option Nat → Bool
  | none => true
  | some side => r.width.toNat ≤ side && r.height.toNat ≤ side

namespace FileFormat

/-- The formats by extension. Some formats have several extensions, of which none is preferred, and
case does not count when they are looked up. -/
def extensions : List (String × FileFormat) :=
  [("png", png), ("apng", png), ("jpg", jpeg), ("jpeg", jpeg), ("jfif", jpeg), ("bmp", bmp),
   ("webp", webp)]
  ++ ["avif", "gif", "tif", "tiff", "tga", "dds", "ico", "hdr", "exr", "pbm", "pam", "ppm", "pgm",
      "pnm", "ff", "qoi"].map fun name => (name, foreign)

def ofExtension? (extension : String) : Option FileFormat :=
  extensions.lookup (extension.map Char.toLower)

/-- The longest side that can be written, where there is a bound. A longer one is refused before any
file is made. -/
def maxWrittenSide? : FileFormat → Option Nat
  | jpeg => some 65535
  | webp => some 16384
  | png | bmp | foreign => none

/-- The longest side that can be read. It may be less than what can be written, so there are files
that nobody can read. -/
def maxReadSide? : FileFormat → Option Nat
  | bmp => some 65535
  | webp => some 16383
  | png | jpeg | foreign => none

/-- What a file of a format holds of a raster. The error is the same for a side that is too long and
for a format that cannot be written. -/
def stored (format : FileFormat) (r : Raster) : Except FileError ImageFile :=
  if r.isWithin format.maxWrittenSide? then
    match format with
    | png => .ok ⟨format, r⟩
    | jpeg => .ok ⟨format, r.opaqueColors.reduced⟩
    | bmp | webp => .ok ⟨format, r.reduced⟩
    | foreign => .error .format
  else .error .format

/-- Writes an image in a format. The null image is refused first, as no format has images without
pixels. -/
def write (format : FileFormat) (image : Image) : Except FileError ImageFile :=
  match Raster.ofImage? image with
  | none => .error .nullImage
  | some r => format.stored r

end FileFormat

/-- The image that a file holds. It has the depth of what was stored, so an image of 16 bits may
come back with 8. -/
def ImageFile.read (file : ImageFile) : Except FileError Image :=
  if file.raster.isWithin file.format.maxReadSide? then .ok file.raster.toImage
  else .error .format

end Darkroom
