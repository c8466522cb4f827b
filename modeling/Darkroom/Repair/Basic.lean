import Darkroom.Image.Basic
import Darkroom.Progress
import Darkroom.Repair.Weights

/-!
# Repairing spots

Each rectangle of a list is rebuilt from the pixels around it: as the mean of the pixels that touch
its edges, or by a polynomial through its neighbours. Only the part inside the image is repaired, and
it is repaired from pixels outside of it; alpha stays. Cancellation is looked at between rectangles.
-/

namespace Darkroom

/-- How a spot is rebuilt: by one color for all of it, or by a polynomial of one of three orders. -/
inductive Interpolation where
  | average
  | linear
  | quadratic
  | cubic
  deriving DecidableEq

/-- Which neighbours a polynomial is fitted to. With one direction each line of the spot is fitted
by itself. -/
inductive Direction where
  /-- All around the rectangle. -/
  | twoDim
  /-- Above and below, for each column. -/
  | vertical
  /-- Left and right, for each row. -/
  | horizontal
  deriving DecidableEq

/-- Settings of the repair. Rectangles may overlap, and each is repaired with what the one before
left. -/
structure SpotRepair where
  interpolation : Interpolation
  direction : Direction
  spots : List Rect
  deriving DecidableEq

def Interpolation.order? : Interpolation → Option Nat
  | average => none
  | linear => some 1
  | quadratic => some 2
  | cubic => some 3

namespace SpotRepair

def default : SpotRepair :=
  ⟨.average, .twoDim, []⟩

end SpotRepair

namespace Repair

/-- The part of an image that is repaired. It lies inside the image and is not empty, so natural
numbers will do. -/
structure Spot where
  x : Nat
  y : Nat
  width : Nat
  height : Nat

/-- The part of a rectangle inside an image; nothing when it is empty. A rectangle outside is no
fault, it is only not repaired. -/
def spot? (image : Image) (rect : Rect) : Option Spot :=
  let r := rect.intersected (.ofDimensions image.dimensions)
  if r.isEmpty then none
  else some ⟨r.x.toInt.toNat, r.y.toInt.toNat, r.width.toInt.toNat, r.height.toInt.toNat⟩

def Spot.covers (s : Spot) (x y : Nat) : Bool :=
  s.x ≤ x && x < s.x + s.width && s.y ≤ y && y < s.y + s.height

/-- The pixel at a position, if it lies inside the image. Positions around a spot may be negative,
so they are integers. -/
def pixel? (image : Image) (x y : Int) : Option Pixel :=
  if 0 ≤ x ∧ x < image.width.toNat ∧ 0 ≤ y ∧ y < image.height.toNat then
    some (image.pixel x.toNat y.toNat)
  else none

/-! ## The mean -/

/-- The pixels of an image that touch the edges of a spot. The corners are not among them, and at
the border of the image a side is missing. -/
def ring (image : Image) (s : Spot) : List Pixel :=
  let x : Int := s.x
  let y : Int := s.y
  let above := (List.range s.width).flatMap fun (i : Nat) =>
    (pixel? image (x + i) (y - 1)).toList ++ (pixel? image (x + i) (y + s.height)).toList
  let beside := (List.range s.height).flatMap fun (i : Nat) =>
    (pixel? image (x - 1) (y + i)).toList ++ (pixel? image (x + s.width) (y + i)).toList
  above ++ beside

/-- The mean of a color, a half rounded up. The sum is exact, so it does not matter how many pixels
there are. -/
def mean (color : Pixel → UInt16) (pixels : List Pixel) : UInt16 :=
  let n := pixels.length
  UInt16.ofNat ((2 * pixels.foldl (fun total p => total + (color p).toNat) 0 + n) / (2 * n))

/-- Fills a spot with the mean of its ring. A spot without a ring is left alone; that is one which
covers the whole image. -/
def average (image : Image) (s : Spot) : Image :=
  let pixels := ring image s
  if pixels.isEmpty then image
  else
    let red := mean Pixel.red pixels
    let green := mean Pixel.green pixels
    let blue := mean Pixel.blue pixels
    image.mapPixels fun x y =>
      let old := image.pixel x y
      if s.covers x y then { old with red, green, blue } else old

/-! ## Polynomials -/

/-- The smallest number that counts as more than nothing, which is the smallest normal double. -/
def tiny : Float := 2.2250738585072014e-308

/-- A color from the weighted colors of the neighbours, kept within the range. Where the sum nearly
vanishes the color is zero, and where the weights do it is an end of the range; else the quotient is
cut off, not rounded. -/
def weighted (top : Nat) (neighbours : List (Float × Nat)) : UInt16 :=
  let v := sum (neighbours.map fun n => n.1 * Float.ofNat n.2)
  let weights := sum (neighbours.map Prod.fst)
  let value : Int :=
    if v.abs ≤ tiny then 0
    else if weights ≥ tiny then (v / weights).toInt64.toInt
    else if v ≥ 0.0 then top
    else 0
  UInt16.ofNat (min value.toNat top)

/-- The neighbours inside the image of the pixel at `(x, y)` of a spot, with their weights. Those
outside are left out with their weights, so the others are divided by the sum of their own. -/
def neighbours (image : Image) (s : Spot) (direction : Direction) (weights : Weights) (x y : Nat) :
    List (Float × Pixel) :=
  weights.positions.zipIdx.filterMap fun (p, j) =>
    match direction with
    | .twoDim => (pixel? image (s.x + p.x) (s.y + p.y)).map (weights.weight j y x, ·)
    | .vertical => (pixel? image (s.x + x) (s.y + p.y)).map (weights.weight j y 0, ·)
    | .horizontal => (pixel? image (s.x + p.y) (s.y + y)).map (weights.weight j x 0, ·)

/-- Rebuilds a spot by a polynomial. All neighbours lie outside the spot, so it does not matter in
which order its pixels are rebuilt. -/
def fitted (image : Image) (s : Spot) (direction : Direction) (weights : Weights) : Image :=
  let top := image.depth.maxValue
  image.mapPixels fun x y =>
    let old := image.pixel x y
    if s.covers x y then
      let near := neighbours image s direction weights (x - s.x) (y - s.y)
      let color (f : Pixel → UInt16) : UInt16 :=
        weighted top (near.map fun n => (n.1, (f n.2).toNat))
      { old with red := color Pixel.red, green := color Pixel.green, blue := color Pixel.blue }
    else old

/-- The weights for a spot. They depend on its size and not on its place, so spots of one size could
share them. -/
def weightsFor (s : Spot) (order : Nat) : Direction → Weights
  | .twoDim => .rectangle s.width s.height order
  | .vertical => .line s.height order
  | .horizontal => .line s.width order

/-- Repairs one spot. The weights are made anew for each spot, as they depend on its size. -/
def one (interpolation : Interpolation) (direction : Direction) (image : Image) (s : Spot) : Image :=
  match interpolation.order? with
  | none => average image s
  | some order => fitted image s direction (weightsFor s order direction)

/-! ## All spots -/

/-- Repairs the rectangles of a list, the first of which has the given number out of `total`. A
rectangle outside the image is passed over without a report. -/
def all (interpolation : Interpolation) (direction : Direction) (total : Nat) :
    Image → Progress → Nat → List Rect → Image × Progress
  | image, progress, _, [] => (image, progress)
  | image, progress, done, rect :: rest =>
    if progress.isRunning then
      match spot? image rect with
      | none => all interpolation direction total image progress (done + 1) rest
      | some s =>
        all interpolation direction total (one interpolation direction image s)
          (progress.postFraction (done + 1) total 0 100) (done + 1) rest
    else (image, progress)

end Repair

namespace SpotRepair

def apply (r : SpotRepair) (image : Image) (progress : Progress) : Image × Progress :=
  Repair.all r.interpolation r.direction r.spots.length image progress 0 r.spots

end SpotRepair

end Darkroom
