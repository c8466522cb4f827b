import Darkroom.Repair.Basic

/-!
# Repairs in place

The repair of spots once more, as it goes on inside a single image: pixels are written one after the
other, by a polynomial even the colors of a pixel one after the other, and what is read for the next
one is read from the image as it is by then. Coordinates are signed 32-bit numbers, and they wrap.

Nothing here depends on which numbers the weights are, on what comes of dividing by them, or on how a
mean is rounded. So that is left open as a `Rule`; `Rule.doubles` is the one that filters go by.
-/

namespace Darkroom.Repair

/-! ## Rules -/

/-- A color of a pixel. A polynomial repairs one of them in all of a spot before the next one, so
each color is read while others are changed already. -/
inductive Primary where
  | blue
  | green
  | red
  deriving DecidableEq

namespace Primary

def all : List Primary :=
  [blue, green, red]

def read (p : Pixel) : Primary → UInt16
  | blue => p.blue
  | green => p.green
  | red => p.red

def write (p : Pixel) (v : UInt16) : Primary → Pixel
  | blue => { p with blue := v }
  | green => { p with green := v }
  | red => { p with red := v }

end Primary

/-- How the values of neighbours are turned into a new value. The place of a spot is not among what
it is given, only its size. -/
structure Rule where
  /-- What neighbours are weighed by. -/
  Weight : Type
  /-- The weight of the neighbour with index `j` of the pixel at `(x, y)`, in spots of a size. -/
  weight (width height order : Nat) (direction : Direction) (j y x : Nat) : Weight
  /-- The value for weighed neighbours in a range that ends at `top`, before it is kept inside. -/
  value (top : Nat) (neighbours : List (Weight × Nat)) : Int
  /-- The mean of the values of a color. -/
  mean (values : List UInt16) : UInt16

/-- Weights are doubles, and the quotient is cut off. The mean is rounded, a half goes up. With this
rule the repair in place is that of filters. -/
def Rule.doubles : Rule where
  Weight := Float
  weight width height order direction j y x :=
    (weightsFor ⟨0, 0, width, height⟩ order direction).weight j y x
  value top neighbours :=
    let v := sum (neighbours.map fun n => n.1 * Float.ofNat n.2)
    let weights := sum (neighbours.map Prod.fst)
    if v.abs ≤ tiny then 0
    else if weights ≥ tiny then (v / weights).toInt64.toInt
    else if v ≥ 0.0 then top
    else 0
  mean values :=
    let n := values.length
    UInt16.ofNat ((2 * values.foldl (fun total v => total + v.toNat) 0 + n) / (2 * n))

namespace InPlace

/-! ## Pixels -/

/-- The coordinates from `low` up to but not including `high`. There are none if the bounds are not
in order. -/
def between (low high : Int32) : List Int32 :=
  (List.range (high.toInt - low.toInt).toNat).map fun (i : Nat) => Int32.ofInt (low.toInt + i)

/-- The pixel at a position, if it lies inside the image. A coordinate that has wrapped is looked at
like any other. -/
def pixelAt? (image : Image) (x y : Int32) : Option Pixel :=
  pixel? image x.toInt y.toInt

/-- Changes the pixel at a position, if it lies inside the image. No position outside is written,
whatever was computed for it. -/
def change (f : Pixel → Pixel) (image : Image) (x y : Int32) : Image :=
  match pixelAt? image x y with
  | none => image
  | some old => image.setPixel x.toUInt32.toNat y.toUInt32.toNat ⟨f old, image.depth⟩

/-- Takes a step at each position, row by row. Each step sees the image as the steps before have
left it. -/
def sweep (columns rows : List Int32) (step : Image → Int32 → Int32 → Image) (image : Image) :
    Image :=
  rows.foldl (fun image y => columns.foldl (fun image x => step image x y) image) image

/-! ## The mean -/

/-- The pixels of an image that touch the edges of a rectangle. The far edges come from the
rectangle, so they saturate, and one less than the near edges may wrap. -/
def ring (image : Image) (r : Rect) : List Pixel :=
  ((between r.x r.right).flatMap fun x =>
      (pixelAt? image x (r.y - 1)).toList ++ (pixelAt? image x r.bottom).toList)
    ++ (between r.y r.bottom).flatMap fun y =>
      (pixelAt? image (r.x - 1) y).toList ++ (pixelAt? image r.right y).toList

/-- Fills a rectangle with the mean of its ring. A rectangle without a ring is left alone. The mean
is computed once, before the first pixel is written. -/
def average (rule : Rule) (image : Image) (r : Rect) : Image :=
  let pixels := ring image r
  if pixels.isEmpty then image
  else
    let red := rule.mean (pixels.map Pixel.red)
    let green := rule.mean (pixels.map Pixel.green)
    let blue := rule.mean (pixels.map Pixel.blue)
    sweep (between r.x r.right) (between r.y r.bottom)
      (change fun old => { old with red, green, blue }) image

/-! ## Polynomials -/

def offsets (width height order : Nat) : Direction → List Offset
  | .twoDim => around width height order
  | .vertical => along height order
  | .horizontal => along width order

/-- Where a neighbour of the pixel at `(x, y)` of a rectangle is. The sums wrap, since nothing keeps
a rectangle from standing at the end of the range. -/
def neighbourAt (r : Rect) (x y : Int32) (p : Offset) : Direction → Int32 × Int32
  | .twoDim => (r.x + Int32.ofInt p.x, r.y + Int32.ofInt p.y)
  | .vertical => (r.x + x, r.y + Int32.ofInt p.y)
  | .horizontal => (r.x + Int32.ofInt p.y, r.y + y)

/-- The row and the column that the weights of the pixel at `(x, y)` of a spot are found under.
Along a line there is one coordinate only, which takes the place of the row. -/
def weightAt (x y : Nat) : Direction → Nat × Nat
  | .twoDim => (y, x)
  | .vertical => (y, 0)
  | .horizontal => (x, 0)

/-- The values of a color in the neighbours inside the image of the pixel at `(x, y)` of a rectangle,
with their weights. -/
def neighbours (rule : Rule) (order : Nat) (direction : Direction) (image : Image) (r : Rect)
    (c : Primary) (x y : Int32) : List (rule.Weight × Nat) :=
  let width := r.width.toInt.toNat
  let height := r.height.toInt.toNat
  let place := weightAt x.toInt.toNat y.toInt.toNat direction
  (offsets width height order direction).zipIdx.filterMap fun (p, j) =>
    let position := neighbourAt r x y p direction
    (pixelAt? image position.1 position.2).map fun pixel =>
      (rule.weight width height order direction j place.1 place.2, (c.read pixel).toNat)

def kept (top : Nat) (value : Int) : UInt16 :=
  UInt16.ofNat (min value.toNat top)

/-- Rebuilds a color of a rectangle. The neighbours are read again for every pixel, from the image
that is being changed. -/
def rebuild (rule : Rule) (order : Nat) (direction : Direction) (r : Rect) (image : Image)
    (c : Primary) : Image :=
  let top := image.depth.maxValue
  sweep (between 0 r.width) (between 0 r.height) (fun image x y =>
    change (fun old =>
      c.write old (kept top (rule.value top (neighbours rule order direction image r c x y))))
      image (r.x + x) (r.y + y)) image

/-- Rebuilds a rectangle by a polynomial, color by color, and not pixel by pixel. -/
def weighted (rule : Rule) (order : Nat) (direction : Direction) (image : Image) (r : Rect) :
    Image :=
  Primary.all.foldl (rebuild rule order direction r) image

/-! ## All spots -/

def one (rule : Rule) (interpolation : Interpolation) (direction : Direction) (image : Image)
    (r : Rect) : Image :=
  match interpolation.order? with
  | none => average rule image r
  | some order => weighted rule order direction image r

/-- Repairs the rectangles of a list, each as far as it lies inside `bounds`. The bounds are those
of the image and are computed once, since repairs do not change its size. -/
def all (rule : Rule) (interpolation : Interpolation) (direction : Direction) (bounds : Rect)
    (total : Nat) : Image → Progress → Nat → List Rect → Image × Progress
  | image, progress, _, [] => (image, progress)
  | image, progress, done, rect :: rest =>
    if progress.isRunning then
      let r := rect.intersected bounds
      if r.isEmpty then all rule interpolation direction bounds total image progress (done + 1) rest
      else
        all rule interpolation direction bounds total (one rule interpolation direction image r)
          (progress.postFraction (done + 1) total 0 100) (done + 1) rest
    else (image, progress)

def apply (rule : Rule) (r : SpotRepair) (image : Image) (progress : Progress) :
    Image × Progress :=
  all rule r.interpolation r.direction (.ofDimensions image.dimensions) r.spots.length image progress
    0 r.spots

end InPlace

end Darkroom.Repair
