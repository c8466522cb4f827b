import Darkroom.Proofs.Tone.AutoLevels
import Darkroom.Proofs.Tone.Curves.WellFormed
import Darkroom.Proofs.Tone.RoundedCuts

/-!
# What automatic levels forget

Automatic levels find each bound of a channel by a scan of the histogram, and a scan that does not stop
finds none (`Histogram.lowBound?`, `Histogram.highBound?`). A bound that is found replaces the one that
was there, and so do the power and the output range; a bound that is not found stays (`auto_eq_found`).
So two different levels become the same channel only if both bounds are found or agreed before
(`auto_forgets`). The lower bound is not found if all pixels have the darkest value, and the upper one
if all have the brightest.
-/

namespace Darkroom

namespace Histogram

/-! ## The bounds that are found -/

/-- The lower bound that automatic levels find for a channel. There is none if the scan does not
stop, and then the channel keeps the bound that it had before. -/
def lowBound? (h : Histogram) (channel : Channel) : Option Int64 :=
  if h.total channel = 0 then some 0
  else (Levels.lowCut Float h channel h.depth.maxValue (h.total channel)).map fun i =>
    Int64.ofNat (i + 1)

def highBound? (h : Histogram) (channel : Channel) : Option Int64 :=
  if h.total channel = 0 then some 0
  else (Levels.highCut Float h channel h.depth.maxValue (h.total channel)).map fun i =>
    Int64.ofNat (i - 1)

variable {h : Histogram} {channel : Channel}

/-- The lower bound is found unless all pixels have the darkest value. -/
theorem isSome_lowBound? (hlt : h.total channel < 2 ^ 53) :
    (h.lowBound? channel).isSome = true
      ↔ h.total channel = 0 ∨ h.value channel 0 < h.total channel := by
  have hscan : (Levels.lowCut Float h channel h.depth.maxValue (h.total channel)).isSome = true
      ↔ h.value channel 0 < h.total channel :=
    Levels.isSome_cutAt (f := h.fromDark channel) passed_fromDark_total hlt id
  unfold lowBound?
  by_cases hzero : h.total channel = 0
  · simp [hzero]
  · rw [if_neg hzero, Option.isSome_map, hscan, or_iff_right hzero]

/-- The upper bound is found unless all pixels have the brightest value. -/
theorem isSome_highBound? (hlt : h.total channel < 2 ^ 53) :
    (h.highBound? channel).isSome = true
      ↔ h.total channel = 0 ∨ h.value channel h.depth.maxValue < h.total channel := by
  have hscan : (Levels.highCut Float h channel h.depth.maxValue (h.total channel)).isSome = true
      ↔ h.value channel h.depth.maxValue < h.total channel :=
    Levels.isSome_cutAt (f := h.fromBright channel) passed_fromBright_total hlt
      (h.depth.maxValue - ·)
  unfold highBound?
  by_cases hzero : h.total channel = 0
  · simp [hzero]
  · rw [if_neg hzero, Option.isSome_map, hscan, or_iff_right hzero]

end Histogram

namespace Levels

variable {h : Histogram} {channel : Channel}

/-! ## One run -/

/-- What automatic levels leave of a channel: the bounds that are not found. -/
theorem auto_eq_found {levels : Levels Float} (hdepth : levels.depth = h.depth) :
    levels.auto h channel = levels.set channel
      { lowInput := (h.lowBound? channel).getD (levels.channels.get channel).lowInput
        highInput := (h.highBound? channel).getD (levels.channels.get channel).highInput
        gamma := Arith.ofNat 1
        lowOutput := 0
        highOutput := Int64.ofNat h.depth.maxValue } := by
  unfold auto Histogram.lowBound? Histogram.highBound?
  rw [hdepth]
  by_cases hzero : h.total channel = 0
  · rw [if_pos hzero, if_pos hzero]
    exact if_pos hzero
  · rw [if_neg hzero, if_neg hzero]
    refine (if_neg hzero).trans ?_
    have hcount : h.count channel 0 h.depth.maxValue = h.total channel := rfl
    rw [hcount]
    cases lowCut Float h channel h.depth.maxValue (h.total channel) <;>
      cases highCut Float h channel h.depth.maxValue (h.total channel) <;> rfl

theorem get_set (levels : Levels Float) (changed other : Channel) (value : ChannelLevels Float) :
    (levels.set changed value).channels.get other
      = if other = changed then value else levels.channels.get other :=
  PerChannel.get_set ..

theorem depth_auto (levels : Levels Float) : (levels.auto h channel).depth = levels.depth := by
  unfold auto
  simp only
  split <;> rfl

theorem get_auto {levels : Levels Float} (hdepth : levels.depth = h.depth) (other : Channel) :
    (levels.auto h channel).channels.get other
      = if other = channel then
          { lowInput := (h.lowBound? channel).getD (levels.channels.get channel).lowInput
            highInput := (h.highBound? channel).getD (levels.channels.get channel).highInput
            gamma := Arith.ofNat 1
            lowOutput := 0
            highOutput := Int64.ofNat h.depth.maxValue }
        else levels.channels.get other := by
  rw [auto_eq_found hdepth, get_set]

/-! ## Two runs -/

theorem getD_eq_getD_iff {α : Type} {found : Option α} {a b : α} :
    found.getD a = found.getD b ↔ a = b ∨ found.isSome = true := by
  cases found <;> simp

/-- What two runs of automatic levels on the same channel have in common, whatever the levels were
before: the power and the output range, and each bound that is found in the histogram. Below `2 ^ 53`
pixels a bound is found unless all pixels have the value at its end. -/
theorem auto_forgets (h : Histogram) (channel : Channel) {first second : Levels Float}
    (hfirst : first.depth = h.depth) (hsecond : second.depth = h.depth) :
    let before := first.channels.get channel
    let before' := second.channels.get channel
    let after := (first.auto h channel).channels.get channel
    let after' := (second.auto h channel).channels.get channel
    (after.gamma = after'.gamma ∧ after.lowOutput = after'.lowOutput
        ∧ after.highOutput = after'.highOutput)
      ∧ (after.lowInput = after'.lowInput
        ↔ before.lowInput = before'.lowInput ∨ (h.lowBound? channel).isSome = true)
      ∧ (after.highInput = after'.highInput
        ↔ before.highInput = before'.highInput ∨ (h.highBound? channel).isSome = true)
      ∧ (h.total channel < 2 ^ 53 →
        ((h.lowBound? channel).isSome = true
            ↔ h.total channel = 0 ∨ h.value channel 0 < h.total channel)
          ∧ ((h.highBound? channel).isSome = true
            ↔ h.total channel = 0 ∨ h.value channel h.depth.maxValue < h.total channel))
      ∧ (first.auto h channel).depth = first.depth
      ∧ ∀ other, other ≠ channel →
        (first.auto h channel).channels.get other = first.channels.get other := by
  intro before before' after after'
  have hafter : after = _ := (get_auto hfirst channel).trans (if_pos rfl)
  have hafter' : after' = _ := (get_auto hsecond channel).trans (if_pos rfl)
  rw [hafter, hafter']
  exact ⟨⟨rfl, rfl, rfl⟩, getD_eq_getD_iff, getD_eq_getD_iff,
    fun hlt => ⟨Histogram.isSome_lowBound? hlt, Histogram.isSome_highBound? hlt⟩,
    depth_auto first, fun other hother => (get_auto hfirst other).trans (if_neg hother)⟩

def raisedRed : Levels Float :=
  (new .eight).set .red { ChannelLevels.identity .eight with lowInput := 100 }

def blackPixel : Image :=
  ⟨1, 1, .eight, true, #[0, 0, 0, 255]⟩

/-- Red stays at 100 where fresh levels would stay at 0. -/
theorem auto_forgets_blackPixel :
    let h := Histogram.ofImage blackPixel
    raisedRed.depth = h.depth ∧ (new .eight : Levels Float).depth = h.depth
      ∧ ((raisedRed.auto h .red).channels.get .red).lowInput
        ≠ (((new .eight : Levels Float).auto h .red).channels.get .red).lowInput
      ∧ ((raisedRed.auto h .red).channels.get .red).highInput
        = (((new .eight : Levels Float).auto h .red).channels.get .red).highInput := by
  intro h
  have hfirst : raisedRed.depth = h.depth := rfl
  have hsecond : (new .eight : Levels Float).depth = h.depth := rfl
  have hall : h.total .red = 1 ∧ h.value .red 0 = 1 ∧ h.value .red h.depth.maxValue = 0 := by
    decide +kernel
  obtain ⟨-, hlow, hhigh, hfound, -⟩ := auto_forgets h .red hfirst hsecond
  have hsmall : h.total .red < 2 ^ 53 := lt_of_eq_of_lt hall.1 (by norm_num)
  obtain ⟨hlowFound, hhighFound⟩ := hfound hsmall
  refine ⟨hfirst, hsecond, fun hsame => ?_, hhigh.mpr (.inl rfl)⟩
  rcases hlow.mp hsame with hbefore | hsome
  · exact absurd hbefore (show (100 : Int64) ≠ 0 by decide)
  · rw [hlowFound, hall.1, hall.2.1] at hsome
    omega

end Levels

end Darkroom
