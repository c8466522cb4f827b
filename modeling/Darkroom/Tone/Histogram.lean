import Darkroom.Image.Basic
import Darkroom.Tone.PerChannel

/-!
# Histograms

How many pixels have each value, for red, green, blue, alpha and for the largest color. Counting is
a sum over pixels, so it can be split among rows in any way.
-/

namespace Darkroom

/-- The value of a pixel in a channel; its luminosity is the largest of its colors. So a pixel
counts as dark only if all of its colors are. -/
def Pixel.level (p : Pixel) : Channel → Nat
  | .luminosity => max (max p.blue.toNat p.green.toNat) p.red.toNat
  | .red => p.red.toNat
  | .green => p.green.toNat
  | .blue => p.blue.toNat
  | .alpha => p.alpha.toNat

/-- The number of pixels of each value in each channel. In each channel the counts add up to the
number of pixels. -/
structure Histogram where
  depth : Depth
  pixelCount : Nat
  counts : PerChannel (Array Nat)

namespace Histogram

def pixels (image : Image) : List Pixel :=
  (List.range image.pixelCount).map fun i =>
    Pixel.read image.depth image.bytes (i * image.depth.pixelBytes)

/-- Adds the values of pixels to counts. What was counted before is kept, so pixels may come in
several parts. -/
def tally (channel : Channel) (counts : Array Nat) (pixels : List Pixel) : Array Nat :=
  pixels.foldl (fun counts p => counts.modify (p.level channel) (· + 1)) counts

/-- The histogram of an image. That of the null image is zero at 8 bits. Every channel is counted,
alpha also where the image has none. -/
def ofImage (image : Image) : Histogram :=
  let pixels := pixels image
  { depth := image.depth
    pixelCount := image.pixelCount
    counts := .ofFn fun channel =>
      tally channel (Array.replicate image.depth.segments 0) pixels }

/-- The count of a value; zero for a value that does not exist. Scans step beyond the ends, so
negative values are allowed. -/
def value (h : Histogram) (channel : Channel) (bin : Int) : Nat :=
  if bin < 0 then 0 else (h.counts.get channel).getD bin.toNat 0

/-- The counts of the values from `first` to `last`. Values behind the last one do not exist and
count nothing. -/
def count (h : Histogram) (channel : Channel) (first last : Nat) : Nat :=
  (((h.counts.get channel).toList.take (last + 1)).drop first).foldl (· + ·) 0

end Histogram

end Darkroom
