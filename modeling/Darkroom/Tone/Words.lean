import Darkroom.Image.Words
import Darkroom.Tone.Contrast
import Darkroom.Tone.Stretch

/-!
# Tables in machine words

The tables of equalization, normalization and contrast once more, on numbers of as many bits as they
have on a machine. Counts, ranks and their products have 64 bits, products of channel values 32, and
an entry 16; the steps of contrast have 64 with a sign. A number that does not fit, a difference below
zero, an index behind the end and a division by zero make all of it give nothing.
-/

namespace Darkroom.Histogram.Words

open Image.Words (unsigned? difference? channel?)

/-- An unsigned number of 32 bits. Products of two channel values fit into it. -/
def short? (n : Nat) : Option Nat :=
  if n < 0x100000000 then some n else none

def quotient? (a b : Nat) : Option Nat :=
  if b = 0 then none else some (a / b)

def tableOf? (depth : Depth) (f : Nat → Option UInt16) : Option (Array UInt16) :=
  ((List.range depth.segments).mapM f).map List.toArray

/-! ## Equalization -/

def addCount? (ranks : Array Nat × Nat) (n : Nat) : Option (Array Nat × Nat) :=
  (unsigned? (ranks.2 + n)).map fun sum => (ranks.1.push sum, sum)

/-- For each value the number of pixels that have it or a smaller one. Each sum on the way is one of
the results, so all of them are looked at. -/
def ranks? (h : Histogram) (channel : Channel) : Option (Array Nat) :=
  ((h.counts.get channel).toList.foldlM addCount? (#[], 0)).map Prod.fst

/-- The table entry of a value. A rank below the lowest counts as the lowest, since values below all
pixels have rank zero. -/
def ranked? (top low high : Nat) (ranks : Array Nat) (v : Nat) : Option UInt16 := do
  let rank ← ranks[v]?
  let product ← unsigned? (top * (rank - low))
  let width ← difference? high low
  let entry ← quotient? product width
  channel? entry

/-- Adds the table of one color, unless all its pixels have the same value. -/
def equalizeColor? (h : Histogram) (luts : Luts) (component : Component) : Option Luts := do
  let ranks ← ranks? h component.channel
  let low := lowestRank ranks
  let high := highestRank ranks
  if low = high then some luts
  else
    (tableOf? h.depth (ranked? h.depth.maxValue low high ranks)).map (luts.set component)

def equalizing? (h : Histogram) : Option Luts :=
  [Component.red, .green, .blue].foldlM (equalizeColor? h) (Luts.empty h.depth)

/-! ## Normalization -/

/-- The smallest and the largest value that any color of a pixel has, if they are channel values,
which they are for every histogram of an image. -/
def colorRange? (h : Histogram) : Option (Nat × Nat) := do
  let (low, high) ← h.colorRange?
  let low ← channel? low
  let high ← channel? high
  some (low.toNat, high.toNat)

/-- The table entry of a value when a range of some width is stretched. The width comes from
outside, as it is the same for all values. -/
def stretched? (top low high width v : Nat) : Option UInt16 :=
  if v < low then some 0
  else if high < v then channel? top
  else if width = 0 then channel? v
  else do
    let place ← difference? v low
    let product ← short? (top * place)
    let entry ← quotient? product width
    channel? entry

def normalizing? (h : Histogram) : Option Luts :=
  let empty := Luts.empty h.depth
  match colorRange? h with
  | none => some empty
  | some (low, high) => do
    let width ← difference? high low
    let table ← tableOf? h.depth (stretched? h.depth.maxValue low high width)
    some { empty with red := some table, green := some table, blue := some table }

end Darkroom.Histogram.Words

namespace Darkroom.Contrast.Words

open Image.Words (signed? channel?)

/-! ## Brightness, contrast and gamma -/

/-- The entry of a table behind the power. Each sum and difference has to fit by itself; the bounds
are there to see to it. -/
def adjusted? {α : Type} [Arith α] (brightness contrast : α) (top : Nat) (v : Int) :
    Option UInt16 := do
  let middle : Int := (top / 2 : Nat)
  let moved ← signed? (v + bounded (brightness * Arith.ofNat top))
  let distance ← signed? (moved - middle)
  let scaled ← signed? (bounded (Arith.ofInt distance * contrast) + middle)
  channel? (Arith.clampNat top scaled)

def mapped? (c : Contrast) (depth : Depth) (v : Nat) : Option UInt16 := do
  let top := depth.maxValue
  let power ← signed? (powered c.gamma top v)
  adjusted? c.brightness c.contrast top power

def luts? (c : Contrast) (depth : Depth) : Option Luts :=
  let empty := Luts.empty depth
  (Histogram.Words.tableOf? depth (mapped? c depth)).map fun table =>
    match c.channel with
    | .red => empty.set .red table
    | .green => empty.set .green table
    | .blue => empty.set .blue table
    | .luminosity | .alpha =>
      { empty with red := some table, green := some table, blue := some table }

end Darkroom.Contrast.Words
