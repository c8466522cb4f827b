import Darkroom.Image.Rows
import Darkroom.Image.Words
import Darkroom.Tone.Histogram

/-!
# Counting in parts

The rows of an image may be shared out among parts. The pixels of a part are counted in one array,
which has a section of equal length for each channel and starts out with zeros; then arrays are added
two at a time, in any order. Every index and every count is looked at: one that does not fit makes
all of it give nothing.
-/

namespace Darkroom.Histogram

open Image.Words (unsigned?)

/-- The rows of an image, given by their numbers, shared out among parts; and in which order the
counts of the parts are added. Nothing says here that every row is in one part only. -/
inductive Division where
  | part (rows : List Nat)
  | join (first second : Division)

def Division.rows : Division → List Nat
  | part rows => rows
  | join first second => first.rows ++ second.rows

namespace Sections

/-! ## One part -/

def zeros (depth : Depth) : Array Nat :=
  Array.replicate (Channel.all.length * depth.segments) 0

/-- Where a value of a channel is counted. The sections follow each other in the order of the
channels. -/
def place (depth : Depth) (channel : Channel) (value : Nat) : Nat :=
  channel.index * depth.segments + value

/-- One more at a place. An index behind the end and a count that does not fit give nothing. -/
def countAt? (counts : Array Nat) (i : Nat) : Option (Array Nat) := do
  let old ← counts[i]?
  let new ← unsigned? (old + 1)
  some (counts.setIfInBounds i new)

def places (depth : Depth) (p : Pixel) : List Nat :=
  Channel.all.map fun channel => place depth channel (p.level channel)

def countPixel? (depth : Depth) (counts : Array Nat) (p : Pixel) : Option (Array Nat) :=
  (places depth p).foldlM countAt? counts

def countRow? (depth : Depth) (counts : Array Nat) (row : Image.Row) : Option (Array Nat) := do
  let pixels ← Bytes.pixels? depth row
  pixels.foldlM (countPixel? depth) counts

/-! ## All parts -/

/-- The sums of the counts at the same places. Both arrays have the same length, so the second one
is not looked at for places of its own. -/
def sum? (first second : Array Nat) : Option (Array Nat) :=
  ((List.range first.size).mapM fun i => unsigned? (first.getD i 0 + second.getD i 0)).map
    List.toArray

/-- The counts of the rows of an image that a division has. It follows the division: a part is
counted row by row, and two halves are added. -/
def count? (image : Image) : Division → Option (Array Nat)
  | .part rows =>
    rows.foldlM (fun counts y => countRow? image.depth counts (image.row y)) (zeros image.depth)
  | .join first second => do
    let a ← count? image first
    let b ← count? image second
    sum? a b

def ofChannel (depth : Depth) (counts : Array Nat) (channel : Channel) : Array Nat :=
  counts.extract (place depth channel 0) (place depth channel 0 + depth.segments)

/-- The counts of all channels. An image without bytes in its rows has no rows, so nothing is
counted for any division. -/
def all? (image : Image) (division : Division) : Option (Array Nat) :=
  if image.rowBytes = 0 then some (zeros image.depth) else count? image division

end Sections

/-- The histogram of an image, counted in parts. It is `ofImage` for every division that has each
row once. -/
def inParts? (image : Image) (division : Division) : Option Histogram :=
  (Sections.all? image division).map fun counts =>
    { depth := image.depth
      pixelCount := image.pixelCount
      counts := .ofFn (Sections.ofChannel image.depth counts) }

end Darkroom.Histogram
