/-!
# Interpolation weights

The pixels of a rectangle are rebuilt from the pixels near it by the polynomial that fits those best
in the least-squares sense. For a pixel of the rectangle this comes down to a weighted mean of the
neighbours, with weights that only depend on the shape of the rectangle and the order of the
polynomial. A polynomial in two variables has all terms up to the order in each of them.

Positions are relative to the top left corner of the rectangle.
-/

namespace Darkroom.Repair

/-- A position relative to a rectangle. Positions before its corner are negative. -/
structure Offset where
  x : Int
  y : Int
  deriving DecidableEq

/-! ## Neighbours -/

def span (low high : Int) : List Int :=
  (List.range (high - low).toNat).map fun (i : Nat) => low + (i : Int)

/-- Whether a position counts as near a corner of a rectangle: there are fewer steps than the order
between it and the position that touches the corner. The bounds differ as the far sides are counted
from one position later. -/
def nearCorner (w h order : Int) (p : Offset) : Bool :=
  (p.x < 0 && p.y < 0 && -p.x - p.y < order + 2)
    || (p.x < 0 && h ≤ p.y && -p.x + p.y - h < order + 1)
    || (w ≤ p.x && p.y < 0 && p.x - p.y - w < order + 1)
    || (w ≤ p.x && h ≤ p.y && p.x + p.y - w - h < order)

/-- Whether a position lies beside, above or below a rectangle. Nothing here says how far away;
`around` asks only for positions near by. -/
def atSide (w h : Int) (p : Offset) : Bool :=
  ((p.x < 0 || w ≤ p.x) && 0 ≤ p.y && p.y < h) || ((p.y < 0 || h ≤ p.y) && 0 ≤ p.x && p.x < w)

/-- The neighbours all around a rectangle, row by row. The order is that of the weights, and sums of
doubles depend on it. -/
def around (w h order : Nat) : List Offset :=
  (span (-order) (h + order)).flatMap fun y =>
    ((span (-order) (w + order)).map fun x => (⟨x, y⟩ : Offset)).filter fun p =>
      nearCorner w h order p || atSide w h p

/-- The neighbours before and behind a line. The line runs along the second coordinate, whatever it
is used for. -/
def along (length order : Nat) : List Offset :=
  (span (-order) 0 ++ span length (length + order)).map fun y => ⟨0, y⟩

/-! ## Linear algebra -/

/-- The sum of some numbers, from the first to the last. The order matters, as each addition is
rounded. -/
def sum (xs : List Float) : Float :=
  xs.foldl (· + ·) 0.0

/-- The term with index `i` of a polynomial: `x ^ (i / (order + 1)) * y ^ (i % (order + 1))`. The
powers are taken of integers, before anything is rounded. -/
def term (order i : Nat) (p : Offset) : Float :=
  Float.ofInt (Int.pow p.x (i / (order + 1))) * Float.ofInt (Int.pow p.y (i % (order + 1)))

abbrev Matrix := Array (Array Float)

namespace Matrix

def ofFn (rows columns : Nat) (f : Nat → Nat → Float) : Matrix :=
  Array.ofFn fun i : Fin rows => Array.ofFn fun j : Fin columns => f i.val j.val

/-- An entry; zero outside. The matrices made here are never asked outside. -/
def at? (m : Matrix) (i j : Nat) : Float :=
  (m.getD i #[]).getD j 0.0

/-- Subtracts the multiple of a row from another one that makes the entry of the latter in the column
of the former vanish. -/
def eliminate (m : Matrix) (pivot target : Nat) : Matrix :=
  let row := m.getD pivot #[]
  m.modify target fun other =>
    let factor := other.getD pivot 0.0 / row.getD pivot 0.0
    Array.zipWith (fun a b => a - factor * b) other row

/-- The pairs of a pivot and a row to be cleared, first below the diagonal and then above it. What
is left is a diagonal matrix. -/
def eliminations (size : Nat) : List (Nat × Nat) :=
  ((List.range (size - 1)).flatMap fun pivot =>
    ((List.range size).filter (pivot < ·)).map fun target => (pivot, target))
  ++ ((List.range size).reverse.flatMap fun pivot =>
    (List.range pivot).map fun target => (pivot, target))

/-- The inverse of a square matrix, by elimination without exchanging rows. A pivot that vanishes
leaves entries that are no numbers. -/
def inverse (m : Matrix) (size : Nat) : Matrix :=
  let wide := ofFn size (2 * size) fun i j =>
    if j < size then m.at? i j else if j - size = i then 1.0 else 0.0
  let cleared := (eliminations size).foldl (fun m p => m.eliminate p.1 p.2) wide
  ofFn size size fun i j => cleared.at? i (size + j) / cleared.at? i i

end Matrix

/-! ## Weights -/

/-- The neighbours of a shape, and for each term of the polynomial what they contribute to it. The
values of the neighbours do not enter, so one such table serves all colors. -/
structure Weights where
  order : Nat
  positions : List Offset
  solved : Matrix

namespace Weights

/-- The weights for given neighbours and a number of terms. The normal equations of least squares
are solved once, for all values that the neighbours may have. -/
def fit (order terms : Nat) (positions : List Offset) : Weights :=
  let place := positions.toArray
  let values := Matrix.ofFn terms place.size fun i j => term order i (place.getD j ⟨0, 0⟩)
  let normal := Matrix.ofFn terms terms fun i k =>
    sum ((List.range place.size).map fun j => values.at? i j * values.at? k j)
  let inverse := normal.inverse terms
  { order
    positions
    solved := Matrix.ofFn terms place.size fun i j =>
      sum ((List.range terms).map fun k => inverse.at? i k * values.at? k j) }

/-- The weights of a rectangle with the neighbours all around it. There are terms up to the order in
each variable. -/
def rectangle (width height order : Nat) : Weights :=
  fit order ((order + 1) * (order + 1)) (around width height order)

/-- The weights of a line with the neighbours at its ends. Along a line there is only one
variable. -/
def line (length order : Nat) : Weights :=
  fit order (order + 1) (along length order)

/-- What the neighbour with index `j` contributes to the pixel at `(x, y)`. The factor is common to
all neighbours, so it cancels where weights are divided by their sum. -/
def weight (w : Weights) (j : Nat) (y x : Nat) : Float :=
  sum ((List.range w.solved.size).map fun i => w.solved.at? i j * term w.order i ⟨x, y⟩)
    * Float.ofNat w.positions.length

end Weights

end Darkroom.Repair
