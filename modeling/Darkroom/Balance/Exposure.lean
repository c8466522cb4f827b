import Darkroom.Balance.Basic
import Darkroom.Tone.Histogram

/-!
# Automatic exposure

The exposure and the black point are chosen so that one pixel in two hundred, by luminosity, is
brighter than the range, and one darker.
-/

namespace Darkroom.Balance

/-- Counts pixels from the bright end until there are `stop` of them, starting below `level`. Returns
the number of levels that were not counted. -/
def brightEnd (h : Histogram) (stop : Nat) : Nat → Nat → Nat
  | 0, _ => 0
  | level + 1, passed =>
    if passed < stop then brightEnd h stop level (passed + h.value .luminosity level)
    else level + 1

/-- Counts pixels from a level upwards until there are `stop` of them. Returns the first level that
was not counted. -/
def darkEnd (h : Histogram) (stop : Nat) : Nat → Nat → Nat → Nat
  | 0, level, _ => level
  | more + 1, level, passed =>
    if passed < stop then
      darkEnd h stop more (level + 1) (passed + h.value .luminosity level)
    else level

/-- The share of the levels below the bright end. The scan starts above the last level, and may come
down past all of them: then there are none. -/
def brightLevels (h : Histogram) : Nat :=
  brightEnd h (h.pixelCount / 200) (h.depth.segments + 1) 0

/-- The level of the dark end, counted from 1. Level zero is not counted, so pixels that are
entirely black do not move the black point. -/
def darkLevel (h : Histogram) : Nat :=
  darkEnd h (h.pixelCount / 200) (h.depth.segments - 1) 1 0

/-- The exposure in stops that brings the bright end to the end of the range. If there are no levels
below the bright end it is infinite. -/
def exposure (h : Histogram) : Float :=
  -Float.log2 (Float.ofNat (brightLevels h) / Float.ofNat h.depth.segments)

/-- The black point, as a share of the range: half of the dark end, so that the pixels there do not
all come out black. -/
def blackPoint (h : Histogram) : Float :=
  Float.ofNat (darkLevel h) / Float.ofNat h.depth.segments / 2.0

/-- A white balance that only corrects the exposure. All else is as in the default, the darkening of
the shadows included. -/
def exposing (h : Histogram) : WhiteBalance :=
  { WhiteBalance.default with black := blackPoint h, expositionMain := exposure h }

end Darkroom.Balance
