import Darkroom.Image.Basic
import Darkroom.Progress

/-!
# Work row by row

An image is worked on one row at a time. Before each row the cancellation flag is read; a row that
starts is finished, counted and reported, and a row that does not start keeps its bytes.
-/

namespace Darkroom.Image

abbrev Row := Array UInt8

/-- What one row does to its bytes, given its number. It sees no other row, so rows can be worked on
in any order. -/
abbrev RowOp := Nat → Row → Row

/-- The rows of an image, from top to bottom. Put together again they are all bytes of the image. -/
def rows (image : Image) : List Row :=
  (List.range image.height.toNat).map image.row

def withRows (image : Image) (rows : List Row) : Image :=
  { image with bytes := rows.foldl (· ++ ·) #[] }

/-- The part of the progress that row work takes up. Work that comes after some other has a band
that starts later. -/
structure Band where
  first : Nat
  last : Nat

structure RowWork where
  finished : Nat
  progress : Progress

/-- One row. The flag is read before the row and not again, so a row is changed as a whole or not at
all. -/
def RowWork.row (height : Nat) (band : Band) (op : RowOp) (work : RowWork) (y : Nat) (row : Row) :
    RowWork × Row :=
  if work.progress.isRunning then
    let finished := work.finished + 1
    (⟨finished, work.progress.postFraction finished height band.first band.last⟩, op y row)
  else (work, row)

/-- Rows one after the other, the first of which has the given number. After cancellation the rows
that are left are passed through as they are. -/
def RowWork.run (height : Nat) (band : Band) (op : RowOp) :
    RowWork → Nat → List Row → RowWork × List Row
  | work, _, [] => (work, [])
  | work, y, row :: rest =>
    let (work, row) := work.row height band op y row
    let (work, rest) := work.run height band op (y + 1) rest
    (work, row :: rest)

/-- Applies `op` to every row. The null image has no rows, and nothing is reported for it. -/
def processRows (image : Image) (progress : Progress) (band : Band) (op : RowOp) :
    Image × Progress :=
  if image.isNull then (image, progress)
  else
    let (work, rows) := RowWork.run image.height.toNat band op ⟨0, progress⟩ 0 image.rows
    (image.withRows rows, work.progress)

/-- The same change of every pixel, as work on a row. Bytes behind the last whole pixel of a row do
not occur in an image. -/
def pixelOp (depth : Depth) (f : Pixel → Pixel) : RowOp := fun _ row =>
  Array.ofFn fun i : Fin row.size =>
    let start := i.val / depth.pixelBytes * depth.pixelBytes
    (f (Pixel.read depth row start)).byte depth (i.val % depth.pixelBytes)

end Darkroom.Image
