import Darkroom.Image.Checked

/-!
# Blending in machine words

The blend of two images once more, on numbers of as many bits as they have on a machine. Placements
are clipped with signed numbers of 64 bits, indices and sums of shares are unsigned ones, and a
channel value has 16 bits before it is stored and as many as the depth afterwards. A number that
does not fit makes the whole blend give nothing.
-/

namespace Darkroom.Image.Words

/-! ## Words -/

/-- A signed number of 64 bits. A number that is larger is a fault here, and not wrapped. -/
def signed? (n : Int) : Option Int :=
  if -0x8000000000000000 ≤ n ∧ n < 0x8000000000000000 then some n else none

def unsigned? (n : Nat) : Option Nat :=
  if n < 0x10000000000000000 then some n else none

def ofSigned? (n : Int) : Option Nat :=
  if 0 ≤ n then unsigned? n.toNat else none

/-- The difference of unsigned numbers. A negative one is a fault. -/
def difference? (a b : Nat) : Option Nat :=
  if b ≤ a then some (a - b) else none

def channel? (n : Nat) : Option UInt16 :=
  if n < 0x10000 then some (UInt16.ofNat n) else none

/-- A pixel as it is stored at a depth. Values beyond the depth would be cut by storing them, so
they are a fault. -/
def stored? (depth : Depth) (p : Pixel) : Option Pixel :=
  if [p.blue, p.green, p.red, p.alpha].all (·.toNat ≤ depth.maxValue) then some p else none

/-! ## Clipping -/

def trimStart (s : Span) : Option Span := do
  let s ← if s.source < 0 then do
      let target ← signed? (s.target - s.source)
      let length ← signed? (s.length + s.source)
      some ⟨0, target, length⟩
    else some s
  if s.target < 0 then do
    let source ← signed? (s.source - s.target)
    let length ← signed? (s.length + s.target)
    some ⟨source, 0, length⟩
  else some s

/-- Cuts off what lies behind the end of either image. The sizes are of 32 bits, so for a placement
these differences always fit. -/
def trimEnd (s : Span) (sourceSize targetSize : Nat) : Option Span := do
  let sourceRest ← signed? (sourceSize - s.source)
  let targetRest ← signed? (targetSize - s.target)
  some { s with length := min (min s.length sourceRest) targetRest }

/-- One axis of a placement, with both ends cut off. It starts from numbers of 32 bits, and every
sum on the way is looked at. -/
def clipped (start corner length : Int32) (sourceSize targetSize : UInt32) : Option Span := do
  let s ← trimStart ⟨start.toInt, corner.toInt, length.toInt⟩
  trimEnd s sourceSize.toNat targetSize.toNat

/-- The region of `rect` of the source that is placed with its corner at `place`. The inner `none`
stands for an empty one. -/
def clip (rect : Rect) (place : Point) (source target : Dimensions) : Option (Option Region) := do
  let x ← clipped rect.x place.x rect.width source.width target.width
  let y ← clipped rect.y place.y rect.height source.height target.height
  if 0 < x.length ∧ 0 < y.length then do
    let sourceX ← ofSigned? x.source
    let sourceY ← ofSigned? y.source
    let targetX ← ofSigned? x.target
    let targetY ← ofSigned? y.target
    let width ← ofSigned? x.length
    let height ← ofSigned? y.length
    some (some ⟨sourceX, sourceY, targetX, targetY, width, height⟩)
  else some none

/-! ## Layers -/

/-- One channel of a pixel laid over another. Each product and each sum has to fit by itself. -/
def mix (max alpha rest : Nat) (upper lower : UInt16) : Option UInt16 := do
  let above ← unsigned? (upper.toNat * alpha)
  let below ← unsigned? (lower.toNat * rest)
  let both ← unsigned? (above + below)
  let sum ← unsigned? (both + max / 2)
  channel? (sum / max)

/-- A pixel laid over another one, by the alpha of the upper. The sum of both alphas is bounded
before it becomes a channel value. -/
def layered (max : Nat) (upper lower : Pixel) : Option Pixel := do
  let rest ← difference? max (min upper.alpha.toNat max)
  let blue ← mix max upper.alpha.toNat rest upper.blue lower.blue
  let green ← mix max upper.alpha.toNat rest upper.green lower.green
  let red ← mix max upper.alpha.toNat rest upper.red lower.red
  let below ← unsigned? (lower.alpha.toNat * rest)
  let sum ← unsigned? (below + max / 2)
  let joined ← unsigned? (upper.alpha.toNat + sum / max)
  let alpha ← channel? (min joined max)
  some ⟨blue, green, red, alpha⟩

/-- Where the pixel in column `x + i` and row `y + j` is stored, with every number on the way. -/
def offset (stride size x y i j : Nat) : Option Nat := do
  let row ← unsigned? (y + j)
  let line ← unsigned? (row * stride)
  let column ← unsigned? (x + i)
  let inside ← unsigned? (column * size)
  unsigned? (line + inside)

/-- Lays the pixel in column `i` and row `j` of a region over the target, whose bytes have changed
before. -/
def blendPixel (target source : Image) (region : Region) (sourceStride targetStride : Nat)
    (bytes : Array UInt8) (i j : Nat) : Option (Array UInt8) := do
  let size := target.depth.pixelBytes
  let start ← offset sourceStride size region.sourceX region.sourceY i j
  let place ← offset targetStride size region.targetX region.targetY i j
  let upper ← Bytes.pixel? target.depth source.bytes start
  let lower ← Bytes.pixel? target.depth bytes place
  let new ← layered target.depth.maxValue upper lower
  let new ← stored? target.depth new
  Bytes.putPixel? target.depth bytes place new

def blendRegion (target source : Image) (region : Region) : Option Image := do
  let sourceStride ← unsigned? (source.width.toNat * source.depth.pixelBytes)
  let targetStride ← unsigned? (target.width.toNat * target.depth.pixelBytes)
  Checked.withBytes target ((positions 0 0 region.width region.height).foldlM
    (fun bytes p => blendPixel target source region sourceStride targetStride bytes p.1 p.2)
    target.bytes)

/-- Lays a rectangle of `source` over `target`. Faults of the images come first, as no number is
computed for them. -/
def blend (target source : Image) (rect : Rect) (corner : Point) :
    Option (Except FilterError Image) :=
  match placeFault? target source with
  | some fault => some (.error fault)
  | none => do
    match ← clip rect corner source.dimensions target.dimensions with
    | none => some (.ok target)
    | some region => (blendRegion target source region).map .ok

end Darkroom.Image.Words
