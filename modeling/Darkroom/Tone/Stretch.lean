import Darkroom.Tone.Histogram
import Darkroom.Tone.Luts

/-!
# Stretching colors to the full range

Two ways to spread the colors of an image over the whole range, both derived from a histogram and
computed in natural numbers. Equalization maps every value of a color by its rank; a color with a
single value is left alone. Normalization stretches the range of all colors together linearly.
-/

namespace Darkroom.Histogram

/-! ## Equalization -/

/-- For each value the number of pixels that have it or a smaller one. The last of them is the
number of all pixels. -/
def ranks (h : Histogram) (channel : Channel) : Array Nat :=
  ((h.counts.get channel).foldl
    (fun (s : Array Nat × Nat) n => (s.1.push (s.2 + n), s.2 + n)) (#[], 0)).1

/-- The smallest rank of a pixel; zero when there is none. It is the number of pixels that have the
smallest value. -/
def lowestRank (ranks : Array Nat) : Nat :=
  (ranks.find? (0 < ·)).getD 0

def highestRank (ranks : Array Nat) : Nat :=
  ranks.back?.getD 0

/-- The table entry of a rank: its place between the ends, as a share of the range. The quotient is
cut off, in natural numbers. -/
def rankEntry (top low high rank : Nat) : Nat :=
  top * (rank - low) / (high - low)

/-- Adds the table of one color, unless all its pixels have the same value. Then there is nothing to
spread, and the ends of the ranks would divide by zero. -/
def equalizeColor (h : Histogram) (luts : Luts) (component : Component) : Luts :=
  let ranks := h.ranks component.channel
  let low := lowestRank ranks
  let high := highestRank ranks
  if low = high then luts
  else luts.withTable component fun v => rankEntry h.depth.maxValue low high (ranks.getD v 0)

def equalizing (h : Histogram) : Luts :=
  [Component.red, .green, .blue].foldl h.equalizeColor (Luts.empty h.depth)

/-! ## Normalization -/

/-- The smallest and the largest value of a channel that pixels have. There is none if there are no
pixels. -/
def channelRange? (h : Histogram) (channel : Channel) : Option (Nat × Nat) :=
  let counts := (h.counts.get channel).toList
  match counts.findIdx? (0 < ·), counts.reverse.findIdx? (0 < ·) with
  | some first, some last => some (first, counts.length - 1 - last)
  | _, _ => none

/-- The range that covers two ranges. No range takes nothing up, so the other one is the result. -/
def joinRanges : Option (Nat × Nat) → Option (Nat × Nat) → Option (Nat × Nat)
  | some (a, b), some (c, d) => some (min a c, max b d)
  | some r, none => some r
  | none, r => r

/-- The smallest and the largest value that any color of a pixel has. Alpha and luminosity do not
count. -/
def colorRange? (h : Histogram) : Option (Nat × Nat) :=
  [Channel.red, .green, .blue].foldl (fun range c => joinRanges range (h.channelRange? c)) none

/-- The table entry of a value when the range from `low` to `high` is stretched. What lies outside
goes to the ends, and a single value stays as it is. -/
def stretchEntry (top low high v : Nat) : Nat :=
  if v < low then 0
  else if high < v then top
  else if low = high then v
  else top * (v - low) / (high - low)

/-- The tables that stretch the range of the colors. All colors share one table, so a gray pixel
stays gray; without pixels there is none. -/
def normalizing (h : Histogram) : Luts :=
  let empty := Luts.empty h.depth
  match h.colorRange? with
  | none => empty
  | some (low, high) => empty.withColorTables (stretchEntry h.depth.maxValue low high)

end Darkroom.Histogram
