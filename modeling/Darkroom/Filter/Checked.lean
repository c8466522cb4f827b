import Darkroom.Filter.Apply
import Darkroom.Image.Checked

/-!
# Filters with checked indices

The work of filters on stored bytes once more, each access with a look at how many bytes there are.
-/

namespace Darkroom

namespace Image.Checked

/-! ## Rows -/

/-- Works on the rows with given numbers one after the other, as long as the progress is running.
When it is not, the rows that are left are passed over, as each of them looks at the flag by
itself. -/
def runRows (height stride : Nat) (band : Band) (op : Nat → Row → Option Row) :
    RowWork → List Nat → Array UInt8 → Option (RowWork × Array UInt8)
  | work, [], bytes => some (work, bytes)
  | work, y :: rest, bytes =>
    if work.progress.isRunning then do
      let bytes ← Bytes.update? bytes (y * stride) stride (op y)
      let finished := work.finished + 1
      runRows height stride band op
        ⟨finished, work.progress.postFraction finished height band.first band.last⟩ rest bytes
    else runRows height stride band op work rest bytes

def processRows (image : Image) (progress : Progress) (band : Band)
    (op : Nat → Row → Option Row) : Option (Image × Progress) :=
  if image.isNull then some (image, progress)
  else do
    let (work, bytes) ← runRows image.height.toNat image.rowBytes band op ⟨0, progress⟩
      (List.range (image.bytes.size / image.rowBytes)) image.bytes
    some ({ image with bytes }, work.progress)

def processPixels (image : Image) (progress : Progress) (band : Band) (f : Pixel → Pixel) :
    Option (Image × Progress) :=
  processRows image progress band fun _ row => Bytes.eachPixel? image.depth f row

end Image.Checked

namespace Filter.Checked

/-! ## Measuring -/

/-- The histogram of an image. The pixels are read once, and then every channel is counted on its
own. -/
def histogram (image : Image) : Option Histogram := do
  let pixels ← Bytes.pixels? image.depth image.bytes
  some
    { depth := image.depth
      pixelCount := image.pixelCount
      counts := .ofFn fun channel =>
        Histogram.tally channel (Array.replicate image.depth.segments 0) pixels }

def peak (pixels : List Pixel) (color : Pixel → UInt16) : Nat :=
  pixels.foldl (fun top p => max top (color p).toNat) 0

def withoutClipping (image : Image) (m : Balance.Multipliers) : Option Balance.Multipliers := do
  let pixels ← Bytes.pixels? image.depth image.bytes
  let top := Float.ofNat image.depth.maxValue
  let lower (factor : Float) (color : Pixel → UInt16) (multiplier : Float) : Float :=
    let p := peak pixels color
    if p = 0 then factor else Balance.lesser factor (top / (Float.ofNat p * multiplier))
  some (m.scale
    (lower (lower (lower 1.0 Pixel.red m.red) Pixel.green m.green) Pixel.blue m.blue))

/-! ## Tables and balances -/

/-- Maps every pixel of an image by tables. Look-ups in tables are total, so the only indices are
those of bytes. -/
def luts (luts : Luts) (image : Image) (progress : Progress) (band : Image.Band) :
    Option (Image × Progress) :=
  Image.Checked.processPixels image progress band luts.mapPixel

def balance (w : WhiteBalance) (image : Image) (progress : Progress) :
    Option (Image × Progress) := do
  let m := Balance.multipliers w.temperature w.green
  let r := Balance.response w (if w.clipSaturation then 1.0 else m.green) image.depth.segments
  let m ← if w.preventClipping then withoutClipping image m else some m
  Image.Checked.processPixels image progress ⟨0, 100⟩ (Balance.balancedPixel w m r)

/-! ## Spots -/

/-- The pixel at a position, if it lies inside the image. The outer `none` is an index outside of
the bytes, the inner one a position outside of the image, which is not a fault. -/
def inside (image : Image) (x y : Int) : Option (Option Pixel) :=
  if 0 ≤ x ∧ x < image.width.toNat ∧ 0 ≤ y ∧ y < image.height.toNat then
    (Image.Checked.pixel image x.toNat y.toNat).map some
  else some none

/-- The positions that touch the edges of a spot, some of which may lie outside of the image. The
corners are not among them. -/
def ringAt (s : Repair.Spot) : List (Int × Int) :=
  let x : Int := s.x
  let y : Int := s.y
  ((List.range s.width).flatMap fun (i : Nat) => [(x + i, y - 1), (x + i, y + s.height)])
    ++ (List.range s.height).flatMap fun (i : Nat) => [(x - 1, y + i), (x + s.width, y + i)]

def ring (image : Image) (s : Repair.Spot) : Option (List Pixel) := do
  let pixels ← (ringAt s).mapM fun p => inside image p.1 p.2
  some (pixels.filterMap id)

/-- Fills a spot with the mean of its ring. The ring is read before anything is written, as it is
the same for all pixels of the spot. -/
def average (image : Image) (s : Repair.Spot) : Option Image := do
  let pixels ← ring image s
  if pixels.isEmpty then some image
  else
    let red := Repair.mean Pixel.red pixels
    let green := Repair.mean Pixel.green pixels
    let blue := Repair.mean Pixel.blue pixels
    Image.Checked.changeAt image (Image.positions s.x s.y s.width s.height)
      fun _ _ old => some { old with red, green, blue }

/-- The neighbours inside the image of the pixel at `(x, y)` of a spot, with their weights. In one
direction the positions are along a line, and the other coordinate is that of the pixel. -/
def neighbours (image : Image) (s : Repair.Spot) (direction : Direction)
    (weights : Repair.Weights) (x y : Nat) : Option (List (Float × Pixel)) := do
  let near ← weights.positions.zipIdx.mapM fun (p, j) =>
    match direction with
    | .twoDim => (inside image (s.x + p.x) (s.y + p.y)).map (·.map (weights.weight j y x, ·))
    | .vertical => (inside image (s.x + x) (s.y + p.y)).map (·.map (weights.weight j y 0, ·))
    | .horizontal => (inside image (s.x + p.y) (s.y + y)).map (·.map (weights.weight j x 0, ·))
  some (near.filterMap id)

/-- Rebuilds a spot by a polynomial. The neighbours lie outside of the spot, so they are what they were
in the image before. -/
def fitted (image : Image) (s : Repair.Spot) (direction : Direction) (weights : Repair.Weights) :
    Option Image :=
  Image.Checked.changeAt image (Image.positions s.x s.y s.width s.height) fun x y old => do
    let near ← neighbours image s direction weights (x - s.x) (y - s.y)
    let color (f : Pixel → UInt16) : UInt16 :=
      Repair.weighted image.depth.maxValue (near.map fun n => (n.1, (f n.2).toNat))
    some { old with red := color Pixel.red, green := color Pixel.green, blue := color Pixel.blue }

def one (interpolation : Interpolation) (direction : Direction) (image : Image) (s : Repair.Spot) :
    Option Image :=
  match interpolation.order? with
  | none => average image s
  | some order => fitted image s direction (Repair.weightsFor s order direction)

/-- Repairs the rectangles of a list, the first of which has the given number out of `total`. A
rectangle that is no spot of the image counts, but is not reported. -/
def all (interpolation : Interpolation) (direction : Direction) (total : Nat) :
    Image → Progress → Nat → List Rect → Option (Image × Progress)
  | image, progress, _, [] => some (image, progress)
  | image, progress, done, rect :: rest =>
    if progress.isRunning then
      match Repair.spot? image rect with
      | none => all interpolation direction total image progress (done + 1) rest
      | some s => do
        let image ← one interpolation direction image s
        all interpolation direction total image
          (progress.postFraction (done + 1) total 0 100) (done + 1) rest
    else some (image, progress)

/-! ## All kinds -/

def working (f : Filter) (work : Option (Image × Progress)) :
    Option (Except FilterError Filtered) :=
  work.map fun (image, progress) => .ok ⟨f, image, progress⟩

def measuring (f : Filter) (source : Image) (reference : Option Image) (progress : Progress)
    (work : Histogram → Progress → Option (Image × Progress)) :
    Option (Except FilterError Filtered) :=
  match Filter.measured source reference with
  | .error e => some (.error e)
  | .ok image => do
    let h ← histogram image
    working { f with usedReference := reference.isSome } (work h (progress.post 10))

/-- Runs a filter on an image with checked indices. It follows `Filter.apply` kind by kind, so the
two are compared kind by kind. -/
def apply (f : Filter) (source : Image) (reference : Option Image) (progress : Progress) :
    Option (Except FilterError Filtered) :=
  match f.settings with
  | .contrast settings => working f (luts (settings.luts source.depth) source progress ⟨0, 100⟩)
  | .whiteBalance settings => working f (balance settings source progress)
  | .curves settings =>
    let tables := ((Curves.ofSettings settings).converted source.depth).luts
    working f (luts tables source (progress.post 5) ⟨5, 100⟩)
  | .spotRepair settings =>
    working f (all settings.interpolation settings.direction settings.spots.length source progress 0
      settings.spots)
  | .autoExposure => measuring f source reference progress fun h progress =>
    balance (Balance.exposing h) source progress
  | .autoLevels => measuring f source reference progress fun h progress =>
    luts (h.autoLevels Float).luts source progress ⟨10, 100⟩
  | .equalize => measuring f source reference progress fun h progress =>
    luts h.equalizing source progress ⟨10, 100⟩
  | .normalize => measuring f source reference progress fun h progress =>
    luts h.normalizing source progress ⟨10, 100⟩

end Filter.Checked

end Darkroom
