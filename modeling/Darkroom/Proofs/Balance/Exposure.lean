import Darkroom.Balance.Exposure
import Darkroom.Proofs.Arithmetic.Exact
import Darkroom.Proofs.Decimal.Quotient
import Darkroom.Proofs.Tone.Histogram
import Mathlib

/-!
# Where automatic exposure ends

The scan from the bright end stops at the highest level that one pixel in two hundred reaches
(`brightLevels_isGreatest`). That level is the share of the range that the exposure is the logarithm
of, and it is zero as soon as fewer pixels than that are not black. So the exposure of a dark image
has no end, and that of any other image is finite (`exposure_finite_iff`). The scan from the dark
end keeps to the range for every image (`darkLevel_range`).
-/

namespace Darkroom

namespace Image

def reaching (image : Image) (level : ℕ) : ℕ :=
  image.countPixels fun p => level ≤ p.level .luminosity

theorem reaching_zero (image : Image) : image.reaching 0 = image.pixelCount := by
  rw [← image.countPixels_true]
  exact countPixels_congr fun _ _ _ _ => iff_of_true (Nat.zero_le _) trivial

/-- The pixels of one more level. -/
theorem reaching_eq (image : Image) (level : ℕ) :
    image.reaching level
      = image.reaching (level + 1) + (Histogram.ofImage image).value .luminosity level := by
  have hsplit : image.reaching level = image.reaching (level + 1)
      + image.countPixels fun p => p.level .luminosity = level :=
    countPixels_add (fun p => by omega) fun p => by omega
  rw [hsplit, Histogram.value_ofImage]
  simp only [Int.natCast_inj]

theorem reaching_antitone (image : Image) : Antitone image.reaching :=
  fun _ _ h => countPixels_mono fun _ hp => h.trans hp

theorem reaching_beyond (image : Image) : image.reaching (image.depth.segments + 1) = 0 := by
  rw [reaching, countPixels_eq, List.countP_eq_zero]
  intro p hp hlevel
  have hlt := (fits_of_mem_pixels hp).level_lt .luminosity
  have hge := of_decide_eq_true hlevel
  omega

end Image

namespace Balance

open Histogram (ofImage)

variable {image : Image}

/-! ## The scans -/

/-- The scan goes down from `level` to the highest level that enough pixels reach. -/
theorem brightEnd_isGreatest {stop : ℕ} (hstop : stop ≤ image.pixelCount) (level : ℕ) :
    IsGreatest {k | k ≤ level ∧ stop ≤ image.reaching k}
      (brightEnd (ofImage image) stop level (image.reaching level)) := by
  induction level with
  | zero =>
      refine ⟨⟨le_rfl, ?_⟩, fun k hk => hk.1⟩
      rw [brightEnd, image.reaching_zero]
      exact hstop
  | succ level ih =>
      rw [brightEnd]
      split
      · rename_i hfew
        rw [← image.reaching_eq]
        refine ⟨⟨ih.1.1.trans (Nat.le_succ level), ih.1.2⟩, fun k hk => ih.2 ⟨?_, hk.2⟩⟩
        rcases Nat.le_succ_iff.mp hk.1 with hle | rfl
        · exact hle
        · exact absurd hk.2 (not_le.mpr hfew)
      · rename_i henough
        exact ⟨⟨le_rfl, not_lt.mp henough⟩, fun k hk => hk.1⟩

theorem brightLevels_isGreatest (image : Image) :
    IsGreatest {k | k ≤ image.depth.segments + 1 ∧ image.pixelCount / 200 ≤ image.reaching k}
      (brightLevels (ofImage image)) := by
  have hscan := brightEnd_isGreatest (Nat.div_le_self image.pixelCount 200)
    (image.depth.segments + 1)
  rwa [image.reaching_beyond] at hscan

/-- Some level is left over if the pixels that are not black are enough. -/
theorem brightLevels_pos_iff (image : Image) :
    1 ≤ brightLevels (ofImage image) ↔ image.pixelCount / 200 ≤ image.reaching 1 := by
  have hgreatest := brightLevels_isGreatest image
  constructor
  · intro hpos
    exact hgreatest.1.2.trans (image.reaching_antitone hpos)
  · intro henough
    exact hgreatest.2 ⟨Nat.le_add_left 1 _, henough⟩

theorem darkEnd_range (h : Histogram) (stop : ℕ) : ∀ more level passed : ℕ,
    level ≤ darkEnd h stop more level passed ∧ darkEnd h stop more level passed ≤ level + more
  | 0, level, _ => ⟨le_rfl, le_rfl⟩
  | more + 1, level, passed => by
      rw [darkEnd]
      split
      · have hrest := darkEnd_range h stop more (level + 1)
          (passed + h.value .luminosity level)
        omega
      · omega

theorem darkLevel_range (h : Histogram) : 1 ≤ darkLevel h ∧ darkLevel h ≤ h.depth.segments := by
  have hrange := darkEnd_range h (h.pixelCount / 200) (h.depth.segments - 1) 1 0
  rw [← darkLevel, Depth.segments] at hrange
  rw [Depth.segments]
  omega

/-! ## Shares of the range -/

/-- The share of the range that the exposure is the logarithm of. It is taken in running doubles, as
what matters is whether it is zero there. -/
def brightShare (h : Histogram) : Float :=
  Float.ofNat (brightLevels h) / Float.ofNat h.depth.segments

/-- The exposure in stops, with a logarithm that is not rounded. An extended number is needed,
because a share of zero has a logarithm as well. -/
noncomputable def exactExposure (h : Histogram) : EReal :=
  -(ENNReal.log (brightLevels h / h.depth.segments) / ((Real.log (2 : ℕ) : ℝ) : EReal))

theorem segments_eq (depth : Depth) : depth.segments = 2 ^ depth.bits := by
  cases depth <;> rfl

theorem exactly_segments (depth : Depth) :
    Decimal.Exactly (Float.ofNat depth.segments) (2 ^ depth.bits) := by
  have hsegments : (depth.segments : ℚ) = 2 ^ depth.bits := by exact_mod_cast segments_eq depth
  rw [← hsegments]
  exact Decimal.exactly_ofNat (Nat.succ_pos _) (by cases depth <;> decide)

/-- A share of the range is a double. -/
theorem exactly_share {depth : Depth} {n : ℕ} (hpos : 0 < n) (hlt : n < 2 ^ 53) :
    Decimal.Exactly (Float.ofNat n / Float.ofNat depth.segments) (n / 2 ^ depth.bits) := by
  refine (Decimal.exactly_ofNat hpos hlt).div_two_pow (exactly_segments depth) ?_
  have hone : (1 : ℚ) ≤ n := by exact_mod_cast hpos
  refine le_trans (zpow_le_one_of_nonpos₀ (by norm_num) ?_) hone
  cases depth <;> decide

theorem brightShare_pos_iff (h : Histogram) (hlt : brightLevels h < 2 ^ 53) :
    0 < brightShare h ↔ 1 ≤ brightLevels h := by
  constructor
  · intro hshare
    by_contra hzero
    rw [brightShare, show brightLevels h = 0 by omega,
      Decimal.ofNat_zero_div (exactly_segments _)] at hshare
    exact Decimal.not_zero_lt_zero hshare
  · intro hpos
    exact (exactly_share hpos hlt).pos

theorem exactExposure_eq (h : Histogram) (hpos : 1 ≤ brightLevels h) :
    exactExposure h = ((-Real.logb 2 (brightLevels h / h.depth.segments) : ℝ) : EReal) := by
  have hnumer : (brightLevels h : ENNReal) ≠ 0 := Nat.cast_ne_zero.mpr (by omega)
  have hdenom : (h.depth.segments : ENNReal) ≠ 0 := Nat.cast_ne_zero.mpr (Nat.succ_ne_zero _)
  have hratio : (brightLevels h / h.depth.segments : ENNReal) ≠ 0 :=
    ENNReal.div_ne_zero.mpr ⟨hnumer, ENNReal.natCast_ne_top _⟩
  have hfinite : (brightLevels h / h.depth.segments : ENNReal) ≠ ⊤ :=
    ENNReal.div_ne_top (ENNReal.natCast_ne_top _) hdenom
  rw [exactExposure, ENNReal.log_pos_real hratio hfinite, ENNReal.toReal_div,
    ENNReal.toReal_natCast, ENNReal.toReal_natCast, Nat.cast_ofNat, Real.logb, EReal.coe_neg,
    EReal.coe_div]

theorem exactExposure_eq_top (h : Histogram) (hzero : brightLevels h = 0) :
    exactExposure h = ⊤ := by
  have hlog : (0 : EReal) < ((Real.log (2 : ℕ) : ℝ) : EReal) :=
    EReal.coe_pos.mpr (Real.log_pos (by norm_num))
  rw [exactExposure, hzero, Nat.cast_zero, ENNReal.zero_div, ENNReal.log_zero,
    EReal.bot_div_of_pos_ne_top hlog (EReal.coe_ne_top _), EReal.neg_bot]

theorem blackPoint_range (h : Histogram) : 0 < blackPoint h ∧ blackPoint h ≤ 0.5 := by
  obtain ⟨hpos, hle⟩ := darkLevel_range h
  have hshare : Decimal.Exactly (Float.ofNat (darkLevel h) / Float.ofNat h.depth.segments)
      (darkLevel h / 2 ^ h.depth.bits) := by
    refine exactly_share hpos (lt_of_le_of_lt hle ?_)
    cases h.depth <;> decide
  have hone : (1 : ℚ) ≤ darkLevel h := by exact_mod_cast hpos
  have htop : (darkLevel h : ℚ) ≤ 2 ^ h.depth.bits := by
    exact_mod_cast segments_eq h.depth ▸ hle
  have hrange : (0 : ℚ) < 2 ^ h.depth.bits := by positivity
  have hbits : (2 : ℚ) ^ h.depth.bits ≤ 2 ^ 16 := by cases h.depth <;> norm_num [Depth.bits]
  have hlow : (2 : ℚ) ^ (((1 : ℕ) : ℤ) - 1000) ≤ darkLevel h / 2 ^ h.depth.bits := by
    calc (2 : ℚ) ^ (((1 : ℕ) : ℤ) - 1000) ≤ 2 ^ (-16 : ℤ) :=
          zpow_le_zpow_right₀ (by norm_num) (by decide)
      _ = 1 / 2 ^ 16 := by norm_num [zpow_neg]
      _ ≤ darkLevel h / 2 ^ h.depth.bits := div_le_div₀ (by linarith) hone hrange hbits
  have hhalved := hshare.div_two_pow (k := 1) (by rw [pow_one]; exact Decimal.exactly_two) hlow
  refine ⟨hhalved.pos, hhalved.le Decimal.exactly_half ?_⟩
  rw [pow_one]
  exact div_le_div_of_nonneg_right ((div_le_one hrange).mpr htop) (by norm_num)

/-! ## The exposure -/

/-- The levels that are left over when the scan from the bright end stops, their share of the range
and the exposure, for every image. The exposure is finite if at least one pixel in two hundred is not
black, and otherwise the scan goes on through black, the share is zero and its logarithm has no end.
The black point always is above zero and at most one half. -/
theorem exposure_finite_iff (image : Image) :
    let h := ofImage image
    (1 ≤ brightLevels h ↔ image.pixelCount / 200 ≤ image.reaching 1)
      ∧ IsGreatest {k | k ≤ image.depth.segments + 1 ∧ image.pixelCount / 200 ≤ image.reaching k}
        (brightLevels h)
      ∧ exposure h = -Float.log2 (brightShare h)
      ∧ (0 < brightShare h ↔ image.pixelCount / 200 ≤ image.reaching 1)
      ∧ ((∃ stops : ℝ, exactExposure h = stops) ↔ image.pixelCount / 200 ≤ image.reaching 1)
      ∧ (exactExposure h = ⊤ ↔ image.reaching 1 < image.pixelCount / 200)
      ∧ 0 < blackPoint h ∧ blackPoint h ≤ 0.5 := by
  intro h
  have hgreatest := brightLevels_isGreatest image
  have hpos := brightLevels_pos_iff image
  have hlt : brightLevels h < 2 ^ 53 := by
    refine lt_of_le_of_lt hgreatest.1.1 ?_
    cases image.depth <;> decide
  have hfinite : 1 ≤ brightLevels h → ∃ stops : ℝ, exactExposure h = stops :=
    fun hone => ⟨_, exactExposure_eq h hone⟩
  have hendless : ¬1 ≤ brightLevels h → exactExposure h = ⊤ :=
    fun hzero => exactExposure_eq_top h (by omega)
  refine ⟨hpos, hgreatest, rfl, (brightShare_pos_iff h hlt).trans hpos, ?_, ?_,
    blackPoint_range h⟩
  · rw [← hpos]
    refine ⟨fun ⟨stops, hstops⟩ => ?_, hfinite⟩
    by_contra hzero
    exact EReal.coe_ne_top stops (hstops.symm.trans (hendless hzero))
  · rw [← not_le, ← hpos]
    refine ⟨fun htop hone => ?_, hendless⟩
    obtain ⟨stops, hstops⟩ := hfinite hone
    exact EReal.coe_ne_top stops (hstops.symm.trans htop)

def blackRow : Image :=
  .zeros ⟨200, 1⟩ .eight true

/-- The scan goes on through black, and the exposure has no end. -/
theorem exposure_finite_iff_blackRow :
    blackRow.isNull = false ∧ brightLevels (ofImage blackRow) = 0
      ∧ ¬0 < brightShare (ofImage blackRow) ∧ exactExposure (ofImage blackRow) = ⊤ := by
  have hlen : (Image.byteLength? ⟨200, 1⟩ .eight).isSome := by decide
  have hframe := Image.ofPixels_eq hlen (by decide) true fun _ _ => ⟨0, 0, 0, 0⟩
  have hcount : blackRow.pixelCount = 200 := by
    rw [blackRow, Image.zeros, hframe, Image.pixelCount]
    decide
  have hwf : blackRow.WellFormed := by
    rw [blackRow, Image.zeros]
    exact Image.wellFormed_ofPixels _ _ _ _
  have hnull : blackRow.isNull = false := by
    rw [hwf.isNull_eq_false_iff, hcount]
    decide
  have hblack : blackRow.reaching 1 = 0 := by
    refine Nat.eq_zero_of_not_pos fun hpos => ?_
    obtain ⟨x, hx, y, hy, hlevel⟩ := Image.countPixels_pos.mp hpos
    rw [blackRow, Image.zeros, hframe] at hx hy
    rw [blackRow, Image.zeros, Image.pixel_ofPixels hlen hx hy fun c => by cases c <;> decide]
      at hlevel
    exact absurd hlevel (by decide)
  have hfew : blackRow.reaching 1 < blackRow.pixelCount / 200 := by
    rw [hblack, hcount]
    decide
  obtain ⟨hlevels, -, -, hshare, -, hendless, -⟩ := exposure_finite_iff blackRow
  refine ⟨hnull, ?_, fun hpos => ?_, hendless.mpr hfew⟩
  · rw [← not_le, ← hlevels] at hfew
    omega
  · exact absurd (hshare.mp hpos) (not_le.mpr hfew)

end Balance

end Darkroom
