import Darkroom.Arithmetic
import Darkroom.Image.Basic

/-!
# Sampling and resizing

A color between pixels is the bilinear mean of its four neighbours. Resizing averages along the
columns and then along the rows, each output sample with weights that fall off linearly from its
center; it computes in single precision and rounds once at the end.
-/

namespace Darkroom.Image

/-! ## Between pixels -/

/-- A coordinate kept inside `0 … size - 1`; no number counts as zero. So a position far outside has
the color of the nearest pixel at the border. -/
def clampCoordinate {α : Type} [Arith α] (v : α) (size : Nat) : α :=
  if Arith.isNaN v then Arith.ofNat 0
  else Arith.clamp (Arith.ofNat 0) (Arith.ofNat (size - 1)) v

/-- The four neighbours of a position inside the image, with their weights. Each weight is a product
of the shares along the two axes, so together they are one. -/
def taps {α : Type} [Arith α] (x y : α) : List (Nat × Nat × α) :=
  let x0 := (Arith.truncate x).toNat
  let y0 := (Arith.truncate y).toNat
  let fx := x - Arith.ofNat x0
  let fy := y - Arith.ofNat y0
  let one : α := Arith.ofNat 1
  [(x0, y0, (one - fx) * (one - fy)),
   (x0 + 1, y0, fx * (one - fy)),
   (x0, y0 + 1, (one - fx) * fy),
   (x0 + 1, y0 + 1, fx * fy)]

/-- The weighted sum of one channel over the taps that lie in the image. Those beyond the last
column or row have weight zero, so nothing is lost by leaving them out. -/
def tapSum {α : Type} [Arith α] (image : Image) (channel : Pixel → UInt16)
    (taps : List (Nat × Nat × α)) : α :=
  taps.foldl (fun sum (x, y, weight) =>
    if x < image.width.toNat ∧ y < image.height.toNat then
      sum + weight * Arith.ofNat (channel (image.pixel x y)).toNat
    else sum) (Arith.ofNat 0)

/-- The color at a fractional position, which is moved into the image first. The null image has no
color, and shows zeros at 8 bits. -/
def sampleAt {α : Type} [Arith α] (image : Image) (x y : α) : Color :=
  if image.isNull then ⟨⟨0, 0, 0, 0⟩, .eight⟩
  else
    let near := taps (clampCoordinate x image.width.toNat) (clampCoordinate y image.height.toNat)
    let channel (c : Pixel → UInt16) : UInt16 :=
      UInt16.ofNat (roundClamp (image.tapSum c near) image.depth.maxValue)
    ⟨⟨channel (·.blue), channel (·.green), channel (·.red), channel (·.alpha)⟩, image.depth⟩

/-! ## Resizing -/

/-- The samples of a line that one output sample is made of: the first one, and the weights from
there on, which sum to one. -/
structure Kernel where
  first : Nat
  weights : List Float32

namespace Kernel

def bounded (low high n : Int) : Int :=
  min (max n low) high

/-- The kernel of output sample `o` when `n` samples become `m`. The center is halfway into the
sample; when a line is made shorter the kernel is widened, so that every sample counts. -/
def ofSample (n m o : Nat) : Kernel :=
  let ratio := Float32.ofNat n / Float32.ofNat m
  let scale := if ratio < 1.0 then 1.0 else ratio
  let center := (Float32.ofNat o + 0.5) * ratio
  let left := bounded 0 (n - 1) (center - scale).floor.toInt64.toInt
  let right := bounded (left + 1) n (center + scale).ceil.toInt64.toInt
  let center := center - 0.5
  let raw := (List.range (right - left).toNat).map fun k =>
    let x := ((Float32.ofNat (left.toNat + k) - center) / scale).abs
    if x < 1.0 then 1.0 - x else 0.0
  let sum := raw.foldl (· + ·) 0.0
  ⟨left.toNat, raw.map (· / sum)⟩

/-- The weighted sum of samples. Sums of this precision depend on their order, so they are taken
from the first sample to the last. -/
def apply (kernel : Kernel) (sample : Nat → Float32) : Float32 :=
  (kernel.weights.foldl (fun (sum, i) weight => (sum + sample i * weight, i + 1))
    ((0.0 : Float32), kernel.first)).1

end Kernel

/-- The samples of an image as fractions, pixel by pixel. They are not divided by the range, so
rounding gives channel values again. -/
def samples (image : Image) : Array Float32 :=
  Array.ofFn fun i : Fin (image.pixelCount * 4) =>
    let p := i.val / 4
    let w := image.width.toNat
    Float32.ofNat ((image.pixel (p % w) (p / w)).channel (i.val % 4)).toNat

/-- Lines of samples made longer or shorter: sample `i` of line `l` is at `position l i`. The two
passes are this with different positions. -/
def resampleLines (n m lines : Nat) (source : Array Float32) (position : Nat → Nat → Nat)
    (target : Nat → Nat × Nat) : Array Float32 :=
  let kernels := (List.range m).map (Kernel.ofSample n m) |>.toArray
  Array.ofFn fun i : Fin (lines * m) =>
    let (line, o) := target i.val
    match kernels[o]? with
    | none => 0.0
    | some kernel => kernel.apply fun k => source.getD (position line k) 0.0

/-- The samples of `w` times `h` pixels brought to `w'` times `h'` pixels, in two passes. In between
there are `w` times `h'` pixels. -/
def resampled (w h w' h' : Nat) (samples : Array Float32) : Array Float32 :=
  -- A column of the first pass is one channel of one column of pixels.
  let tall := resampleLines h h' (w * 4) samples
    (fun line y => y * (w * 4) + line) (fun i => (i % (w * 4), i / (w * 4)))
  -- A row of the second pass is one channel of one row of pixels.
  resampleLines w w' (h' * 4) tall
    (fun line x => (line / 4 * w + x) * 4 + line % 4)
    (fun i => (i / (w' * 4) * 4 + i % 4, i / 4 % w'))

/-- A sample as a channel value. Sums of rounded weights may leave the range a little, so it is kept
inside. -/
def sampleValue (max : Nat) (x : Float32) : UInt16 :=
  UInt16.ofNat (min (x.round.toInt64.toInt).toNat max)

/-- A resized copy; null for the null image and for a size without pixels. The same size is a copy
without resampling. -/
def resize (image : Image) (d : Dimensions) : Image :=
  if image.isNull ∨ d.width = 0 ∨ d.height = 0 then null
  else if d = image.dimensions then image
  else
    let both := resampled image.width.toNat image.height.toNat d.width.toNat d.height.toNat
      image.samples
    let sample (i : Nat) : UInt16 := sampleValue image.depth.maxValue (both.getD i 0.0)
    ofPixels d image.depth image.hasAlpha fun x y =>
      let i := (y * d.width.toNat + x) * 4
      ⟨sample i, sample (i + 1), sample (i + 2), sample (i + 3)⟩

end Darkroom.Image
