import Darkroom.Filter.Apply
import Darkroom.Proofs.Tone.Cuts

/-!
# When automatic levels keep the order

The bounds of a channel come from two scans that do not look at each other. With an exact comparison
of the shares they are in order unless one scan runs away (`Histogram.Crossed`): the far end has
pixels, the near end or anything between has some, but no value between has enough to stop before.
Then the dark end is mapped to the brightest value and the bright end to zero, so the image comes out
negative; otherwise no darker value comes out brighter (`autoLevels_order`).
-/

namespace Darkroom

namespace Histogram

def fromDark (h : Histogram) (channel : Channel) (b : ℕ) : ℕ :=
  h.value channel b

/-- The counts as the scan from the bright end sees them. With them both scans are one function, and
the bounds are read off it from either side. -/
def fromBright (h : Histogram) (channel : Channel) (k : ℕ) : ℕ :=
  h.value channel (h.depth.maxValue - k : ℕ)

def total (h : Histogram) (channel : Channel) : ℕ :=
  h.count channel 0 h.depth.maxValue

/-- One of the scans runs away. Then it ends at the far end of the range and the other one leaves
its start, so the lower bound comes to lie above the upper one. -/
def Crossed (h : Histogram) (channel : Channel) : Prop :=
  Levels.Runaway (h.fromDark channel) h.depth.maxValue (h.total channel)
    ∨ Levels.Runaway (h.fromBright channel) h.depth.maxValue (h.total channel)

/-- The lower bound of a channel: the value that the scan from the dark end stops before, and zero
if it does not stop. -/
def low (h : Histogram) (channel : Channel) : ℕ :=
  if h.total channel = 0 then 0
  else Levels.stop (h.fromDark channel) h.depth.maxValue (h.total channel)

def high (h : Histogram) (channel : Channel) : ℕ :=
  if h.total channel = 0 then 0
  else h.depth.maxValue - Levels.stop (h.fromBright channel) h.depth.maxValue (h.total channel)

variable {h : Histogram} {channel : Channel}

/-! ## Counts -/

theorem passed_fromDark (n : ℕ) :
    Levels.passed (h.fromDark channel) n = ((h.counts.get channel).toList.take n).sum := by
  induction n with
  | zero => rfl
  | succ n ih =>
      have hvalue : h.fromDark channel n = ((h.counts.get channel).toList[n]?).getD 0 := by
        show (if (n : ℤ) < 0 then 0 else (h.counts.get channel).getD n 0) = _
        rw [if_neg (Int.natCast_nonneg n).not_gt]
        simp
      rw [Levels.passed_succ, ih, hvalue, List.take_add_one, List.sum_append]
      cases (h.counts.get channel).toList[n]? with
      | none => rfl
      | some value => simp

theorem passed_fromDark_total :
    Levels.passed (h.fromDark channel) (h.depth.maxValue + 1) = h.total channel := by
  rw [passed_fromDark, total, count, List.drop_zero, List.sum_eq_foldl_nat]

theorem fromBright_mirror (k : ℕ) (_ : k ≤ h.depth.maxValue) :
    h.fromBright channel k = h.fromDark channel (h.depth.maxValue - k) :=
  rfl

theorem fromDark_mirror (k : ℕ) (hk : k ≤ h.depth.maxValue) :
    h.fromDark channel k = h.fromBright channel (h.depth.maxValue - k) := by
  rw [fromBright_mirror _ (Nat.sub_le _ _), Nat.sub_sub_self hk]

theorem passed_fromBright_total :
    Levels.passed (h.fromBright channel) (h.depth.maxValue + 1) = h.total channel := by
  have hall : Levels.passed (h.fromDark channel) 0
      + Levels.passed (h.fromBright channel) (h.depth.maxValue + 1) = h.total channel :=
    Levels.passed_mirror fromBright_mirror passed_fromDark_total (Nat.zero_add _)
  have hnone : Levels.passed (h.fromDark channel) 0 = 0 := rfl
  omega

/-! ## Bounds -/

theorem low_le : h.low channel ≤ h.depth.maxValue := by
  unfold low
  split
  · exact Nat.zero_le _
  · exact Levels.stop_le _ _ _

theorem high_le : h.high channel ≤ h.depth.maxValue := by
  unfold high
  split
  · exact Nat.zero_le _
  · exact Nat.sub_le _ _

theorem not_runaway {f : ℕ → ℕ} {max : ℕ} (hnone : Levels.passed f (max + 1) = 0) :
    ¬Levels.Runaway f max 0 := by
  intro hrun
  rw [Levels.passed_succ] at hnone
  have hlast := hrun.1
  omega

/-- The bounds are out of order exactly if a scan runs away. -/
theorem high_lt_low : h.high channel < h.low channel ↔ h.Crossed channel := by
  unfold high low Crossed
  by_cases hzero : h.total channel = 0
  · have hdark : Levels.passed (h.fromDark channel) (h.depth.maxValue + 1) = 0 :=
      passed_fromDark_total.trans hzero
    have hbright : Levels.passed (h.fromBright channel) (h.depth.maxValue + 1) = 0 :=
      passed_fromBright_total.trans hzero
    rw [if_pos hzero, if_pos hzero, hzero]
    simp [not_runaway hdark, not_runaway hbright]
  · rw [if_neg hzero, if_neg hzero, ← Levels.crossed_iff fromBright_mirror fromDark_mirror
      passed_fromDark_total passed_fromBright_total (Nat.pos_of_ne_zero hzero)]
    have hle := Levels.stop_le (h.fromBright channel) h.depth.maxValue (h.total channel)
    omega

end Histogram

/-! ## Stretching -/

namespace ChannelLevels

/-- Levels that stretch the range from `low` to `high` to the whole range. -/
noncomputable def stretching (depth : Depth) (low high : ℕ) : ChannelLevels ℝ :=
  ⟨Int64.ofNat low, Int64.ofNat high, Arith.ofNat 1, 0, Int64.ofNat depth.maxValue⟩

/-- The place of a value in the range from `low` to `high`, which may be upside down. A range of a
single value has its place by the difference alone, since there is nothing to divide by. -/
noncomputable def place (low high : ℕ) (y : ℝ) : ℝ :=
  max 0 (min 1 (if high = low then y - low else (y - low) / (high - low)))

theorem place_nonneg (low high : ℕ) (y : ℝ) : 0 ≤ place low high y :=
  le_max_left 0 _

theorem place_le_one (low high : ℕ) (y : ℝ) : place low high y ≤ 1 :=
  max_le zero_le_one (min_le_left 1 _)

theorem place_mono {low high : ℕ} (h : low ≤ high) : Monotone (place low high) := by
  intro x y hxy
  refine max_le_max_left 0 (min_le_min_left 1 ?_)
  have hwidth : (0 : ℝ) ≤ high - low := sub_nonneg.mpr (Nat.cast_le.mpr h)
  split
  · exact sub_le_sub_right hxy _
  · exact div_le_div_of_nonneg_right (sub_le_sub_right hxy _) hwidth

/-- An upside-down range has its upper end below it. -/
theorem place_of_le {low high : ℕ} {y : ℝ} (h : high < low) (hy : y ≤ high) :
    place low high y = 1 := by
  have hwidth : (0 : ℝ) < low - high := sub_pos.mpr (Nat.cast_lt.mpr h)
  have hone : 1 ≤ (y - low) / ((high : ℝ) - low) := by
    rw [← neg_div_neg_eq, neg_sub, neg_sub, one_le_div hwidth]
    linarith
  rw [place, if_neg h.ne, min_eq_left hone, max_eq_right zero_le_one]

theorem place_of_ge {low high : ℕ} {y : ℝ} (h : high < low) (hy : low ≤ y) :
    place low high y = 0 := by
  have hwidth : (high : ℝ) - low ≤ 0 := sub_nonpos.mpr (Nat.cast_le.mpr h.le)
  have hzero : (y - low) / ((high : ℝ) - low) ≤ 0 :=
    div_nonpos_of_nonneg_of_nonpos (sub_nonneg.mpr hy) hwidth
  rw [place, if_neg h.ne, min_eq_right (hzero.trans zero_le_one), max_eq_left hzero]

/-- In the whole range an intensity is in its place. -/
theorem place_whole {top : ℕ} (htop : 0 < top) {x : ℝ} (hnonneg : 0 ≤ x) (hone : x ≤ 1) :
    place 0 top (top * x) = x := by
  have ht : (top : ℝ) ≠ 0 := Nat.cast_ne_zero.mpr htop.ne'
  rw [place, if_neg htop.ne', Nat.cast_zero, sub_zero, sub_zero, mul_div_cancel_left₀ x ht,
    min_eq_right hone, max_eq_right hnonneg]

theorem toInt_ofNat {depth : Depth} {n : ℕ} (h : n ≤ depth.maxValue) :
    (Int64.ofNat n).toInt = n := by
  refine Int64.toInt_ofNat_of_lt (lt_of_le_of_lt h ?_)
  cases depth <;> decide

theorem fraction_ofNat {depth : Depth} {n : ℕ} (h : n ≤ depth.maxValue) :
    (fraction (Int64.ofNat n) : ℝ) = n := by
  rw [fraction, Arith.ofInt_real, toInt_ofNat h, Int.cast_natCast]

theorem fraction_sub {depth : Depth} {m n : ℕ} (hm : m ≤ depth.maxValue)
    (hn : n ≤ depth.maxValue) : (fraction (Int64.ofNat m - Int64.ofNat n) : ℝ) = m - n := by
  have hmax : depth.maxValue ≤ 65535 := by cases depth <;> decide
  rw [fraction, Arith.ofInt_real, Int64.toInt_sub, toInt_ofNat hm, toInt_ofNat hn,
    Int.bmod_eq_of_le (by omega) (by omega)]
  push_cast
  rfl

section

variable {depth : Depth} {low high : ℕ}

theorem inRange_stretching (hlow : low ≤ depth.maxValue) (hhigh : high ≤ depth.maxValue) (x : ℝ) :
    (stretching depth low high).inRange x depth.maxValue = place low high (depth.maxValue * x) := by
  have hsame : Int64.ofNat high = Int64.ofNat low ↔ high = low := by
    rw [← Int64.toInt_inj, toInt_ofNat hlow, toInt_ofNat hhigh, Nat.cast_inj]
  unfold inRange stretching
  simp only [Arith.ofNat_real, Nat.cast_zero, Nat.cast_one, Arith.clamp_real zero_le_one, hsame,
    fraction_ofNat hlow, fraction_sub hhigh hlow]
  rfl

theorem powered_stretching (v : ℝ) : (stretching depth low high).powered v = v := by
  unfold powered stretching
  simp only [Arith.ofNat_real, Nat.cast_zero, Nat.cast_one, Arith.beq_real]
  rw [if_neg (by simp)]
  show v ^ ((1 : ℝ) / 1) = v
  rw [div_one, Real.rpow_one]

theorem output_stretching (v : ℝ) :
    (stretching depth low high).output v = v * depth.maxValue := by
  have hle : (0 : Int64) ≤ Int64.ofNat depth.maxValue := by cases depth <;> decide
  have hwidth : (fraction (Int64.ofNat depth.maxValue - 0) : ℝ) = depth.maxValue - (0 : ℕ) :=
    fraction_sub (n := 0) le_rfl (Nat.zero_le _)
  have hzero : (fraction 0 : ℝ) = (0 : ℕ) := fraction_ofNat (Nat.zero_le depth.maxValue)
  unfold output stretching
  simp only [if_pos hle, hwidth, hzero, Nat.cast_zero]
  show v * ((depth.maxValue : ℝ) - 0) + 0 = _
  rw [sub_zero, add_zero]

/-- Stretched levels map an intensity to the place of its value. -/
theorem map_stretching (hlow : low ≤ depth.maxValue) (hhigh : high ≤ depth.maxValue) (x : ℝ) :
    (stretching depth low high).map x depth.maxValue = place low high (depth.maxValue * x) := by
  have htop : (depth.maxValue : ℝ) ≠ 0 := by cases depth <;> norm_num [Depth.maxValue]
  rw [map, inRange_stretching hlow hhigh, powered_stretching, output_stretching]
  exact mul_div_cancel_right₀ _ htop

end

end ChannelLevels

namespace Levels

variable {h : Histogram} {channel : Channel}

theorem lowCut_eq (hcount : 0 < h.total channel) (old : Int64) (hold : old = 0) :
    (match lowCut ℝ h channel h.depth.maxValue (h.total channel) with
      | none => old
      | some i => Int64.ofNat (i + 1))
      = Int64.ofNat (stop (h.fromDark channel) h.depth.maxValue (h.total channel)) := by
  have hcut : lowCut ℝ h channel h.depth.maxValue (h.total channel) = _ :=
    cutAt_range (f := h.fromDark channel) hcount id h.depth.maxValue
  rw [hcut, stop, hold]
  cases (List.range h.depth.maxValue).find? fun i =>
      Stops (h.fromDark channel) (h.total channel) (i + 1) with
  | none => rfl
  | some i => rfl

theorem highCut_eq (hcount : 0 < h.total channel) (old : Int64)
    (hold : old = Int64.ofNat h.depth.maxValue) :
    (match highCut ℝ h channel h.depth.maxValue (h.total channel) with
      | none => old
      | some i => Int64.ofNat (i - 1))
      = Int64.ofNat (h.depth.maxValue
        - stop (h.fromBright channel) h.depth.maxValue (h.total channel)) := by
  have hcut : highCut ℝ h channel h.depth.maxValue (h.total channel) = _ :=
    cutAt_range (f := h.fromBright channel) hcount (h.depth.maxValue - ·) h.depth.maxValue
  rw [hcut, stop, hold]
  cases (List.range h.depth.maxValue).find? fun i =>
      Stops (h.fromBright channel) (h.total channel) (i + 1) with
  | none => rfl
  | some i => rfl

/-- One step of automatic levels, on a channel that was not changed before. -/
theorem auto_eq {levels : Levels ℝ} (hdepth : levels.depth = h.depth)
    (hold : levels.channels.get channel = .identity h.depth) :
    levels.auto h channel
      = levels.set channel (.stretching h.depth (h.low channel) (h.high channel)) := by
  unfold auto
  rw [hdepth, hold]
  by_cases hzero : h.total channel = 0
  · rw [Histogram.low, Histogram.high, if_pos hzero, if_pos hzero]
    exact if_pos hzero
  · have hcount := Nat.pos_of_ne_zero hzero
    rw [Histogram.low, Histogram.high, if_neg hzero, if_neg hzero, ChannelLevels.stretching,
      ← lowCut_eq hcount 0 rfl, ← highCut_eq hcount _ rfl]
    exact if_neg hzero

end Levels

/-! ## All channels -/

namespace Histogram

variable {h : Histogram}

/-- Automatic levels stretch the colors and nothing else. -/
theorem channels_autoLevels :
    (h.autoLevels ℝ).depth = h.depth ∧ (h.autoLevels ℝ).channels
      = ((((Levels.new h.depth : Levels ℝ).channels.set .red
          (.stretching h.depth (h.low .red) (h.high .red))).set .green
          (.stretching h.depth (h.low .green) (h.high .green))).set .blue
          (.stretching h.depth (h.low .blue) (h.high .blue))) := by
  have hred : (Levels.new h.depth : Levels ℝ).auto h .red = _ := Levels.auto_eq rfl rfl
  unfold autoLevels
  rw [List.foldl_cons, List.foldl_cons, List.foldl_cons, List.foldl_nil, hred]
  have hgreen : ((Levels.new h.depth : Levels ℝ).set .red
      (.stretching h.depth (h.low .red) (h.high .red))).auto h .green = _ :=
    Levels.auto_eq rfl rfl
  rw [hgreen, Levels.auto_eq rfl rfl]
  exact ⟨rfl, rfl⟩

theorem get_autoLevels {component : Component} (hcolor : component ≠ .alpha) :
    (h.autoLevels ℝ).channels.get component.channel
      = .stretching h.depth (h.low component.channel) (h.high component.channel) := by
  rw [channels_autoLevels.2]
  cases component with
  | red => rfl
  | green => rfl
  | blue => rfl
  | alpha => exact absurd rfl hcolor

theorem luminosity_autoLevels :
    (h.autoLevels ℝ).channels.luminosity = .stretching h.depth 0 h.depth.maxValue := by
  rw [channels_autoLevels.2]
  rfl

/-- The table of a color has each value at its place in the range between the bounds. -/
theorem entry_autoLevels {component : Component} (hcolor : component ≠ .alpha) (v : ℕ) :
    (h.autoLevels ℝ).entry component v = roundClamp ((h.depth.maxValue : ℝ)
      * ChannelLevels.place (h.low component.channel) (h.high component.channel) v)
        h.depth.maxValue := by
  have htop : 0 < h.depth.maxValue := by cases h.depth <;> decide
  have hvalue : (h.depth.maxValue : ℝ) * (v / h.depth.maxValue) = v :=
    mul_div_cancel₀ _ (Nat.cast_ne_zero.mpr htop.ne')
  have htransfer : (h.autoLevels ℝ).transfer component (v / h.depth.maxValue)
      = ChannelLevels.place (h.low component.channel) (h.high component.channel) v := by
    have hluminosity := ChannelLevels.place_whole htop
      (ChannelLevels.place_nonneg (h.low component.channel) (h.high component.channel) v)
      (ChannelLevels.place_le_one (h.low component.channel) (h.high component.channel) v)
    rw [Levels.transfer, channels_autoLevels.1, get_autoLevels hcolor, luminosity_autoLevels]
    simp only [Arith.ofNat_real, ChannelLevels.map_stretching low_le high_le, hvalue,
      ChannelLevels.map_stretching (Nat.zero_le _) le_rfl, hluminosity]
    exact hcolor
  rw [Levels.entry, channels_autoLevels.1]
  simp only [Arith.ofNat_real]
  exact congrArg (fun x : ℝ => roundClamp ((h.depth.maxValue : ℝ) * x) h.depth.maxValue) htransfer

theorem entry_mono {component : Component} (hcolor : component ≠ .alpha)
    (horder : h.low component.channel ≤ h.high component.channel) :
    Monotone ((h.autoLevels ℝ).entry component) := by
  intro u v huv
  rw [entry_autoLevels hcolor, entry_autoLevels hcolor]
  refine roundClamp_mono h.depth.maxValue (mul_le_mul_of_nonneg_left ?_ (Nat.cast_nonneg _))
  exact ChannelLevels.place_mono horder (Nat.cast_le.mpr huv)

/-- Bounds that are out of order turn the range upside down. -/
theorem entry_of_inverted {component : Component} (hcolor : component ≠ .alpha)
    (hinverted : h.high component.channel < h.low component.channel) :
    (h.autoLevels ℝ).entry component 0 = h.depth.maxValue
      ∧ (h.autoLevels ℝ).entry component h.depth.maxValue = 0 := by
  have hrange : h.depth.maxValue < 2 ^ 63 := by cases h.depth <;> decide
  have hlow : (h.low component.channel : ℝ) ≤ h.depth.maxValue := Nat.cast_le.mpr low_le
  constructor
  · rw [entry_autoLevels hcolor, ChannelLevels.place_of_le hinverted (by simp), mul_one]
    exact roundClamp_natCast le_rfl hrange
  · rw [entry_autoLevels hcolor, ChannelLevels.place_of_ge hinverted hlow, mul_zero]
    exact_mod_cast roundClamp_natCast (Nat.zero_le _) hrange

theorem inverted_iff {component : Component} (hcolor : component ≠ .alpha) :
    ((h.autoLevels ℝ).channels.get component.channel).highInput
        < ((h.autoLevels ℝ).channels.get component.channel).lowInput
      ↔ h.Crossed component.channel := by
  rw [get_autoLevels hcolor, ← high_lt_low, ChannelLevels.stretching, Int64.lt_iff_toInt_lt,
    ChannelLevels.toInt_ofNat low_le, ChannelLevels.toInt_ofNat high_le, Nat.cast_lt]

end Histogram

/-- In a color of an image the bounds of automatic levels are out of order, and darker values come
out brighter, exactly where a scan runs away; then the two ends of the range change places. -/
theorem autoLevels_order (image : Image) (component : Component) (hcolor : component ≠ .alpha) :
    let h := Histogram.ofImage image
    let levels := h.autoLevels ℝ
    let own := levels.channels.get component.channel
    (own.highInput < own.lowInput ↔ h.Crossed component.channel)
      ∧ ((∀ u v, u ≤ v → v ≤ image.depth.maxValue →
          levels.entry component u ≤ levels.entry component v) ↔ ¬h.Crossed component.channel)
      ∧ (h.Crossed component.channel → levels.entry component 0 = image.depth.maxValue
          ∧ levels.entry component image.depth.maxValue = 0) := by
  intro h levels own
  have hinverted : h.Crossed component.channel → levels.entry component 0 = image.depth.maxValue
      ∧ levels.entry component image.depth.maxValue = 0 := fun hcrossed =>
    Histogram.entry_of_inverted hcolor (Histogram.high_lt_low.mpr hcrossed)
  refine ⟨Histogram.inverted_iff hcolor, ⟨?_, ?_⟩, hinverted⟩
  · intro hmono hcrossed
    have hends := hmono 0 image.depth.maxValue (Nat.zero_le _) le_rfl
    rw [(hinverted hcrossed).1, (hinverted hcrossed).2] at hends
    have htop : 0 < image.depth.maxValue := by cases image.depth <;> decide
    omega
  · intro hordered u v huv _
    refine Histogram.entry_mono hcolor (not_lt.mp fun hlt => hordered ?_) huv
    exact Histogram.high_lt_low.mp hlt

def blackWhite : Image :=
  ⟨2, 1, .eight, false, #[0, 0, 0, 255, 255, 255, 255, 255]⟩

theorem crossed_blackWhite : (Histogram.ofImage blackWhite).Crossed .red := by
  have hnone : ∀ b < 255, 1 ≤ b → (Histogram.ofImage blackWhite).fromDark .red b = 0 := by
    decide +kernel
  refine .inl ⟨by decide +kernel, ⟨0, by decide, by decide +kernel⟩, fun b hone hlt hstops => ?_⟩
  exact absurd hstops.1 (by rw [hnone b hlt hone]; exact lt_irrefl 0)

theorem autoLevels_order_blackWhite :
    let levels := (Histogram.ofImage blackWhite).autoLevels ℝ
    blackWhite.isNull = false ∧ Component.red ≠ .alpha
      ∧ (levels.channels.get .red).highInput < (levels.channels.get .red).lowInput
      ∧ levels.entry .red 0 = 255 ∧ levels.entry .red 255 = 0 := by
  intro levels
  have horder := autoLevels_order blackWhite .red (by decide)
  exact ⟨rfl, by decide, horder.1.mpr crossed_blackWhite, horder.2.2 crossed_blackWhite⟩

end Darkroom
