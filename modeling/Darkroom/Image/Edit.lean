import Darkroom.Image.Composite
import Darkroom.Image.Resample
import Darkroom.Image.Transform

/-!
# Edits

One change of an image, as a value. Besides the new image an edit says how it comes about: the old
bytes are overwritten, new bytes take their place, or nothing is written at all. On images by
themselves this makes no difference (`Edit.result`); it does where images share their bytes. There an
edit that overwrites (`Edit.inPlace`) first has to get bytes of its own.
-/

namespace Darkroom.Image

/-- A change of one image. The source of a placement is given as an image, which may be the edited
one itself. -/
inductive Edit where
  | load (image : Image)
  | copyFrom (source : Image) (rect : Option Rect)
  | crop (rect : Rect)
  | setPixel (x y : Nat) (color : Color)
  | fill (color : Color)
  | setByte (index : Nat) (value : UInt8)
  | blit (source : Image) (rect : Rect) (corner : Point)
  | blend (source : Image) (rect : Rect) (corner : Point)
  | rotate (rotation : Rotation)
  | flip (axis : Flip)
  | upright (orientation : UInt16)
  | removeAlpha (background : Color)
  | convertDepth (depth : Depth)
  | resize (dimensions : Dimensions)

/-- How an edit comes about. This is what decides about bytes that several images share. -/
inductive Change where
  /-- Nothing is written. -/
  | keep
  /-- The bytes are overwritten; there are as many as before. -/
  | overwrite (image : Image)
  /-- New bytes take the place of the old ones. -/
  | replace (image : Image)

/-- What an edit answers. A placement says whether the two images go together, and not whether
anything was placed. -/
inductive Reply where
  | done
  | placed
  | failed (error : FilterError)
  | changed (value : Bool)
  deriving DecidableEq

namespace Change

def apply (image : Image) : Change → Image
  | keep => image
  | overwrite new => new
  | replace new => new

def write (image new : Image) : Change :=
  if image.isNull then keep else overwrite new

end Change

namespace Edit

/-- The change and the answer of a placement. A placement that is cut off completely writes
nothing. -/
def placement (image source : Image) (rect : Rect) (corner : Point)
    (result : Except FilterError Image) : Change × Reply :=
  match result with
  | .error e => (.keep, .failed e)
  | .ok new =>
    if (clip rect corner source.dimensions image.dimensions).isSome then (.overwrite new, .placed)
    else (.keep, .placed)

/-- The change and the answer of an edit. Only this tells apart edits that give the same image but
treat its bytes in different ways. -/
def change (image : Image) : Edit → Change × Reply
  | load new => (.replace new, .done)
  | copyFrom source rect => (.replace (source.copy rect), .done)
  | crop rect => (.replace (image.crop rect), .done)
  | setPixel x y color => (.write image (image.setPixel x y color), .done)
  | fill color => (.write image (image.fill color), .done)
  | setByte index value => (.write image (image.setByte index value), .done)
  | blit source rect corner =>
    placement image source rect corner (image.blit source rect corner)
  | blend source rect corner =>
    placement image source rect corner (image.blend source rect corner)
  | rotate rotation =>
    (if image.isNull then .keep else .replace (image.rotate rotation), .done)
  | flip axis => (.write image (image.flip axis), .done)
  | upright orientation =>
    match image.upright? orientation with
    | none => (.keep, .changed false)
    | some new =>
      -- A flip alone happens in place; every other orientation rotates first.
      if orientation = 2 ∨ orientation = 4 then (.write image new, .changed true)
      else (.replace new, .changed true)
  | removeAlpha background =>
    (if image.isNull ∨ ¬image.hasAlpha then .keep else .overwrite (image.removeAlpha background),
      .done)
  | convertDepth depth =>
    (if image.isNull ∨ image.depth = depth then .keep else .replace (image.convertDepth depth),
      .done)
  | resize d => (.replace (image.resize d), .done)

/-- Whether an edit overwrites the bytes of an image. It must be known before the edit, as the bytes
are detached first. -/
def inPlace (image : Image) : Edit → Bool
  | load _ | copyFrom .. | crop _ | rotate _ | convertDepth _ | resize _ => false
  | setPixel .. | fill _ | setByte .. | flip _ => !image.isNull
  | blit source rect corner | blend source rect corner =>
    (placeFault? image source).isNone
      && (clip rect corner source.dimensions image.dimensions).isSome
  | upright orientation => !image.isNull && (orientation = 2 || orientation = 4)
  | removeAlpha _ => !image.isNull && image.hasAlpha

/-- The image that an edit makes of an image by itself. An edit that fails leaves the image as it
was. -/
def result (image : Image) : Edit → Image
  | load new => new
  | copyFrom source rect => source.copy rect
  | crop rect => image.crop rect
  | setPixel x y color => image.setPixel x y color
  | fill color => image.fill color
  | setByte index value => image.setByte index value
  | blit source rect corner => (image.blit source rect corner).toOption.getD image
  | blend source rect corner => (image.blend source rect corner).toOption.getD image
  | rotate rotation => image.rotate rotation
  | flip axis => image.flip axis
  | upright orientation => (image.upright? orientation).getD image
  | removeAlpha background => image.removeAlpha background
  | convertDepth depth => image.convertDepth depth
  | resize d => image.resize d

end Edit

end Darkroom.Image
