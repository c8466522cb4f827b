import Darkroom.Filter.Checked
import Darkroom.Image.Store

/-!
# Sessions

A session is a sequence of operations on named images: they are made, edited, and given to filters.
It can be carried out by the operations themselves, or by those with checked indices, which stop at
the first index outside the bytes of an image.
-/

namespace Darkroom

/-- How a new image is made. Sizes may be such that the image comes out null. -/
inductive Creation where
  | null
  | zeros (d : Dimensions) (depth : Depth) (hasAlpha : Bool)
  | ofBytes (d : Dimensions) (depth : Depth) (hasAlpha : Bool) (bytes : Array UInt8)
  | filled (d : Dimensions) (hasAlpha : Bool) (color : Color)

namespace Creation

def image : Creation → Image
  | null => .null
  | zeros d depth hasAlpha => .zeros d depth hasAlpha
  | ofBytes d depth hasAlpha bytes => .ofBytes d depth hasAlpha bytes
  | filled d hasAlpha color => .filled d hasAlpha color

/-- The new image, with checked indices. Only filling writes to bytes that are there already; the
other ways store whole arrays. -/
def checked : Creation → Option Image
  | filled d hasAlpha color => Image.Checked.filled d hasAlpha color
  | creation => some creation.image

end Creation

/-- An operation on the image of a name. Other images are given by their names, and are looked up
when the operation is carried out. -/
inductive Operation where
  | create (creation : Creation)
  | share (source : String)
  | copy (source : String) (rect : Option Rect)
  | crop (rect : Rect)
  | setPixel (x y : UInt32) (color : Color)
  | fill (color : Color)
  | blit (source : String) (rect : Rect) (corner : Point)
  | blend (source : String) (rect : Rect) (corner : Point)
  | rotate (rotation : Rotation)
  | flip (axis : Flip)
  | upright (orientation : UInt16)
  | removeAlpha (background : Color)
  | convertDepth (depth : Depth)
  | resize (dimensions : Dimensions)
  | filter (f : Filter) (source : String) (reference : Option String) (progress : Progress)

namespace Operation

/-- The image that a filter leaves behind; a filter that fails leaves none, and the image of the
name stays as it was. -/
def left (image : Image) : Except FilterError Filtered → Image
  | .ok result => result.image
  | .error _ => image

/-- The edit of the image of a name, where other images are looked up. A filter is one that loads
what it leaves behind, so all operations are edits of one image. -/
def edit (look : String → Image) (image : Image) : Operation → Image.Edit
  | create creation => .load creation.image
  | share source => .load (look source)
  | copy source rect => .copyFrom (look source) rect
  | crop rect => .crop rect
  | setPixel x y color => .setPixel x.toNat y.toNat color
  | fill color => .fill color
  | blit source rect corner => .blit (look source) rect corner
  | blend source rect corner => .blend (look source) rect corner
  | rotate rotation => .rotate rotation
  | flip axis => .flip axis
  | upright orientation => .upright orientation
  | removeAlpha background => .removeAlpha background
  | convertDepth depth => .convertDepth depth
  | resize d => .resize d
  | filter f source reference progress =>
    .load (left image (f.apply (look source) (reference.map look) progress))

def result (look : String → Image) (image : Image) (operation : Operation) : Image :=
  (operation.edit look image).result image

def checked (look : String → Image) (image : Image) : Operation → Option Image
  | create creation => creation.checked
  | filter f source reference progress =>
    (Filter.Checked.apply f (look source) (reference.map look) progress).map (left image)
  | operation => (operation.edit look image).checked image

end Operation

namespace Image.Sheet

def work (s : Sheet) (step : String × Operation) : Sheet :=
  s.assign step.1 (step.2.result s.image (s.image step.1))

def workAll (s : Sheet) (steps : List (String × Operation)) : Sheet :=
  steps.foldl work s

def workChecked (s : Sheet) (step : String × Operation) : Option Sheet :=
  (step.2.checked s.image (s.image step.1)).map (s.assign step.1)

/-- Carries out a session with checked indices. The first index outside ends the session and there
is no sheet. -/
def workAllChecked (s : Sheet) (steps : List (String × Operation)) : Option Sheet :=
  steps.foldlM workChecked s

/-- Whether every single pixel that a session sets lies in its image when its turn comes. This is
the one thing that callers have to see to; everything else is checked by the operations. -/
def Permits : Sheet → List (String × Operation) → Prop
  | _, [] => True
  | s, step :: rest =>
    (step.2.edit s.image (s.image step.1)).InRange (s.image step.1) ∧ (s.work step).Permits rest

end Image.Sheet

end Darkroom
