import Darkroom.Image.Basic

/-!
# Putting images together

A rectangle of one image is placed in another one. What falls outside either image is cut off first,
on integers without bounds; the rest is copied, or laid over the target by its alpha.
-/

namespace Darkroom.Image

/-! ## Clipping -/

/-- The part of a placed rectangle that both images hold: its corner in the source and in the
target, and its size. -/
structure Region where
  sourceX : Nat
  sourceY : Nat
  targetX : Nat
  targetY : Nat
  width : Nat
  height : Nat
  deriving DecidableEq

/-- One axis of a placed rectangle: its start in the source and in the target, and its length. Both
axes are clipped alike, so clipping is about spans. -/
structure Span where
  source : Int
  target : Int
  length : Int

/-- Cuts off what lies before the start of either image. The source comes first, and what it cuts
off may bring the target inside. -/
def Span.trimStart (s : Span) : Span :=
  let s := if s.source < 0 then ⟨0, s.target - s.source, s.length + s.source⟩ else s
  if s.target < 0 then ⟨s.source - s.target, 0, s.length + s.target⟩ else s

/-- Cuts off what lies behind the end of either image. Nothing is left if the length comes out
negative. -/
def Span.trimEnd (s : Span) (sourceSize targetSize : Nat) : Span :=
  { s with length := min (min s.length (sourceSize - s.source)) (targetSize - s.target) }

/-- The region of `rect` of the source that is placed with its corner at `place`. There is none if
one of the axes has nothing left. -/
def clip (rect : Rect) (place : Point) (source target : Dimensions) : Option Region :=
  let x := (Span.trimStart ⟨rect.x.toInt, place.x.toInt, rect.width.toInt⟩).trimEnd
    source.width.toNat target.width.toNat
  let y := (Span.trimStart ⟨rect.y.toInt, place.y.toInt, rect.height.toInt⟩).trimEnd
    source.height.toNat target.height.toNat
  if 0 < x.length ∧ 0 < y.length then
    some
      { sourceX := x.source.toNat
        sourceY := y.source.toNat
        targetX := x.target.toNat
        targetY := y.target.toNat
        width := x.length.toNat
        height := y.length.toNat }
  else none

namespace Region

/-- Whether a position of the target lies in a region. Only such positions are given another
pixel. -/
def covers (r : Region) (x y : Nat) : Bool :=
  r.targetX ≤ x && x < r.targetX + r.width && r.targetY ≤ y && y < r.targetY + r.height

/-- The pixel of the source that a region places at a position of the target. -/
def pixelAt (r : Region) (source : Image) (x y : Nat) : Pixel :=
  source.pixel (r.sourceX + (x - r.targetX)) (r.sourceY + (y - r.targetY))

end Region

/-! ## Placing -/

/-- What keeps two images from being put together. A null image is reported before a depth that
differs. -/
def placeFault? (target source : Image) : Option FilterError :=
  if target.isNull ∨ source.isNull then some .nullImage
  else if target.depth ≠ source.depth then
    some (.depthMismatch (UInt32.ofNat target.depth.bits) (UInt32.ofNat source.depth.bits))
  else none

/-- Places a rectangle of `source` in `target`, where `join upper lower` is the pixel to write.
Copying and laying over differ in this pixel only. -/
def place (join : Pixel → Pixel → Pixel) (target source : Image) (rect : Rect) (corner : Point) :
    Except FilterError Image :=
  match placeFault? target source with
  | some fault => .error fault
  | none =>
    match clip rect corner source.dimensions target.dimensions with
    | none => .ok target
    | some region =>
      .ok (target.mapPixels fun x y =>
        if region.covers x y then join (region.pixelAt source x y) (target.pixel x y)
        else target.pixel x y)

def blit (target source : Image) (rect : Rect) (corner : Point) : Except FilterError Image :=
  place (fun upper _ => upper) target source rect corner

def blend (target source : Image) (rect : Rect) (corner : Point) : Except FilterError Image :=
  place (Pixel.layered target.depth.maxValue) target source rect corner

/-! ## Removing alpha -/

def white : Color :=
  Color.opaqueOf 255 255 255 .eight

/-- Lays the image over a color and drops its alpha. An image without alpha stays as it is. The
background counts as covering, so the alpha of the given color does not matter. -/
def removeAlpha (image : Image) (background : Color) : Image :=
  if image.isNull ∨ ¬image.hasAlpha then image
  else
    let max := image.depth.maxValue
    let lower := { (background.toDepth image.depth).pixel with alpha := UInt16.ofNat max }
    { image.mapPixels fun x y => Pixel.layered max (image.pixel x y) lower with hasAlpha := false }

end Darkroom.Image
