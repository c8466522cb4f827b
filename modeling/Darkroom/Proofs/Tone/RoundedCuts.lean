import Darkroom.Proofs.Decimal.Difference
import Darkroom.Proofs.Tone.Cuts

/-!
# Where the scans of automatic levels stop in doubles

With doubles a scan need not stop at the value at which it stops with exact shares. But it stops
somewhere exactly if a value other than the first has pixels (`isSome_cutAt`): at a value without pixels
the two distances are the same double, and before the last value with pixels the share falls short of
the whole by more than the distances lose to rounding, if there are fewer than `2 ^ 53` pixels.
-/

namespace Darkroom

open Decimal Float.Model

/-! ## Comparisons and distances -/

namespace Arith

theorem less_iff {x y : Float} : less x y = true ↔ x < y :=
  decide_eq_true_iff

theorem not_less_self (x : Float) : ¬less x x = true := by
  rw [less_iff, lt_iff_unpack]
  have hirrefl : ∀ u : UnpackedFloat, ¬u.lt u = true := by
    intro u
    cases u with
    | notANumber => exact Bool.false_ne_true
    | infinity s => cases s <;> exact Bool.false_ne_true
    | zero s => exact Bool.false_ne_true
    | finite s m q hm =>
        cases s <;> simp [UnpackedFloat.lt, UnpackedFloat.compare]
  exact hirrefl _

variable {m : ℕ} {q : ℤ}

theorem abs_zero : Arith.abs (Float.ofNat 0) = Float.ofNat 0 :=
  if_neg fun h => not_zero_lt_zero (less_iff.mp h)

theorem abs_positive (hc : Canonical m q) :
    Arith.abs (ofCanonical .positive hc) = ofCanonical .positive hc := by
  refine if_neg fun h => ?_
  have hlt := lt_iff_unpack.mp (less_iff.mp h)
  rw [ofCanonical, unpack_pack hc] at hlt
  exact Bool.false_ne_true hlt

theorem zero_sub_positive (hc : Canonical m q) :
    Float.ofNat 0 - ofCanonical .positive hc = ofCanonical .negative hc := by
  have hsub : Float.ofNat 0 - ofCanonical .positive hc
      = .ofModel (.pack (UnpackedFloat.sub .binary64 (.zero .positive)
          (Float.Model.pack (.finite .positive m q hc.pos)).unpack)) := rfl
  rw [hsub, unpack_pack hc]
  rfl

theorem abs_negative (hc : Canonical m q) :
    Arith.abs (ofCanonical .negative hc) = ofCanonical .positive hc := by
  have hless : less (ofCanonical .negative hc) (Arith.ofInt 0) = true := by
    rw [less_iff, lt_iff_unpack, ofCanonical, unpack_pack hc]
    rfl
  have hsub : Float.ofNat 0 - ofCanonical .negative hc
      = .ofModel (.pack (UnpackedFloat.sub .binary64 (.zero .positive)
          (Float.Model.pack (.finite .negative m q hc.pos)).unpack)) := rfl
  rw [Arith.abs, if_pos hless]
  refine hsub.trans ?_
  rw [unpack_pack hc]
  rfl

/-- A distance that is short of a double by more than half a unit comes out below it. -/
theorem abs_sub_lt {m₁ m₂ M : ℕ} {q₁ q₂ Q : ℤ} (h₁ : Canonical m₁ q₁) (h₂ : Canonical m₂ q₂)
    (hC : Canonical M Q) (hforth : (m₁ * 2 ^ q₁ - m₂ * 2 ^ q₂ : ℚ) < (M - 1 / 2) * 2 ^ Q)
    (hback : (m₂ * 2 ^ q₂ - m₁ * 2 ^ q₁ : ℚ) < (M - 1 / 2) * 2 ^ Q) :
    less (Arith.abs (ofCanonical .positive h₁ - ofCanonical .positive h₂))
      (ofCanonical .positive hC) = true := by
  rw [less_iff]
  rcases lt_trichotomy (m₁ * 2 ^ q₁ : ℚ) (m₂ * 2 ^ q₂) with hlt | heq | hgt
  · obtain ⟨m, q, hc, hnear⟩ := exists_near_sub h₂ h₁ hlt
    rw [(ofCanonical_sub h₂ h₁ hc hnear (eq_units _ q)).2, abs_negative]
    exact ofCanonical_lt hc hC (hnear.lt_of_lt hc hC hback)
  · obtain ⟨rfl, rfl⟩ := h₁.eq_of_value h₂ heq
    rw [ofCanonical_sub_self, abs_zero, lt_iff_unpack, ofNat_zero, ofCanonical, unpack_pack hC,
      unpack_zero]
    rfl
  · obtain ⟨m, q, hc, hnear⟩ := exists_near_sub h₁ h₂ hgt
    rw [(ofCanonical_sub h₁ h₂ hc hnear (eq_units _ q)).1, abs_positive]
    exact ofCanonical_lt hc hC (hnear.lt_of_lt hc hC hforth)

end Arith

namespace Levels

/-! ## Shares -/

theorem target_eq : ∃ hc : Canonical 6917529027641082 (-60),
    (Arith.ofNat 6 / Arith.ofNat 1000 : Float) = ofCanonical .positive hc :=
  ⟨⟨by decide, by decide, by decide, by decide, .inl (by decide)⟩, rfl⟩

theorem share_all {n : ℕ} (hpos : 0 < n) (hlt : n < 2 ^ 53) :
    (Arith.ofNat n / Arith.ofNat n : Float) = 1.0 := by
  obtain ⟨m, q, hc, heq, -, hval⟩ := exactly_ofNat hpos hlt
  obtain ⟨hone, hone_eq⟩ := exactly_one
  have hn : (n : ℚ) ≠ 0 := by exact_mod_cast hpos.ne'
  have hquotient : (m * 2 ^ q : ℚ) / (m * 2 ^ q) = ((2 ^ 52 : ℕ) : ℚ) * 2 ^ (-52 : ℤ) := by
    rw [hval, div_self hn]
    norm_num [zpow_neg]
  show Float.ofNat n / Float.ofNat n = 1.0
  rw [heq, ofCanonical_div, div_eq hc.pos hc.pos hone (near_self _ _) hquotient, hone_eq, ofCanonical]

/-- A part that is not everything has a share that falls short of one by half a unit in the last
place of one. -/
theorem share_part {p n : ℕ} (hpos : 0 < p) (hpart : p < n) (hlt : n < 2 ^ 53) :
    ∃ (m : ℕ) (q : ℤ) (hc : Canonical m q),
      (Arith.ofNat p / Arith.ofNat n : Float) = ofCanonical .positive hc
        ∧ (m * 2 ^ q : ℚ) ≤ 1 - 1 / 2 ^ 53 := by
  obtain ⟨m₁, q₁, h₁, heq₁, -, hval₁⟩ := exactly_ofNat hpos (hpart.trans hlt)
  obtain ⟨m₂, q₂, h₂, heq₂, -, hval₂⟩ := exactly_ofNat (hpos.trans hpart) hlt
  have hn : (0 : ℚ) < n := by exact_mod_cast hpos.trans hpart
  have hbig : (n : ℚ) ≤ 2 ^ 53 := by exact_mod_cast hlt.le
  have hone : (1 : ℚ) ≤ p := by exact_mod_cast hpos
  have hmore : (p : ℚ) + 1 ≤ n := by exact_mod_cast hpart
  have hlow : (2 : ℚ) ^ (-1074 : ℤ) ≤ p / n :=
    calc (2 : ℚ) ^ (-1074 : ℤ) ≤ 2 ^ (-53 : ℤ) := zpow_le_zpow_right₀ (by norm_num) (by decide)
      _ = 1 / 2 ^ 53 := by norm_num
      _ ≤ p / n := div_le_div₀ (by linarith) hone hn hbig
  have hshort : (p / n : ℚ) ≤ 1 - 1 / 2 ^ 53 := by
    have hrest : (1 / 2 ^ 53 : ℚ) ≤ (n - p) / n := div_le_div₀ (by linarith) (by linarith) hn hbig
    rw [sub_div, div_self hn.ne'] at hrest
    linarith
  have hhigh : (p / n : ℚ) < overflowLimit := by
    refine lt_of_le_of_lt (hshort.trans ?_) (lt_overflowLimit exactly_one.1 (near_self _ _))
    norm_num
  obtain ⟨m, q, hc, hnear⟩ := exists_near hlow hhigh
  have hbelow : Canonical (2 ^ 53 - 1) (-53) :=
    ⟨by decide, by decide, by decide, by decide, .inl (by decide)⟩
  have hbound : (1 - 1 / 2 ^ 53 : ℚ) = ((2 ^ 53 - 1 : ℕ) : ℚ) * 2 ^ (-53 : ℤ) := by norm_num
  refine ⟨m, q, hc, ?_, ?_⟩
  · show Float.ofNat p / Float.ofNat n = _
    rw [heq₁, heq₂, ofCanonical_div,
      div_eq h₁.pos h₂.pos hc hnear (by rw [hval₁, hval₂, ← eq_units]), ofCanonical]
  · rw [hbound] at hshort ⊢
    exact hnear.le_of_le hc hbelow hshort

/-! ## One comparison -/

/-- Where there are no pixels to pass, a scan goes on. -/
theorem not_isCloser_zero (total p : ℕ) : ¬isCloser Float total p 0 = true :=
  Arith.not_less_self _

/-- Before the last pixels a scan stops. -/
theorem isCloser_last {p m : ℕ} (hm : 0 < m) (hlt : p + m < 2 ^ 53) :
    isCloser Float (p + m) p m = true := by
  obtain ⟨htarget, heq⟩ := target_eq
  have hall := share_all (by omega) hlt
  have hdistance : ∃ hc : Canonical 8953156059212546 (-53),
      Arith.abs (1.0 - (Arith.ofNat 6 / Arith.ofNat 1000 : Float)) = ofCanonical .positive hc :=
    ⟨⟨by decide, by decide, by decide, by decide, .inl (by decide)⟩, rfl⟩
  obtain ⟨hC, hdistance⟩ := hdistance
  unfold isCloser
  simp only [hall, hdistance]
  rw [heq]
  rcases Nat.eq_zero_or_pos p with rfl | hp
  · have hnone : (Arith.ofNat 0 / Arith.ofNat (0 + m) : Float) = Float.ofNat 0 :=
      ofNat_zero_div (exactly_ofNat (by omega) hlt)
    rw [hnone, Arith.zero_sub_positive, Arith.abs_negative, Arith.less_iff]
    exact ofCanonical_lt htarget hC (by norm_num)
  · obtain ⟨k, q, hc, hshare, hshort⟩ := share_part hp (by omega) hlt
    have hnonneg : (0 : ℚ) ≤ k * 2 ^ q := mul_nonneg k.cast_nonneg (zpow_two_pos q).le
    rw [hshare]
    refine Arith.abs_sub_lt hc htarget hC ?_ ?_
    · norm_num at hshort ⊢
      linarith
    · norm_num
      linarith

/-! ## One scan -/

variable {f : ℕ → ℕ} {max total : ℕ} (htotal : passed f (max + 1) = total)
include htotal

/-- Some value other than the first has pixels if the first does not have them all. -/
theorem lt_total_iff : f 0 < total ↔ ∃ b, 1 ≤ b ∧ b ≤ max ∧ 0 < f b := by
  have hsplit : total = (∑ i ∈ Finset.range max, f (i + 1)) + f 0 := by
    rw [← htotal, passed, Finset.sum_range_succ']
  rw [hsplit, Nat.lt_add_left_iff_pos, Finset.sum_pos_iff]
  constructor
  · rintro ⟨i, hi, hpos⟩
    exact ⟨i + 1, by omega, Finset.mem_range.mp hi, hpos⟩
  · rintro ⟨b, hone, hle, hpos⟩
    refine ⟨b - 1, Finset.mem_range.mpr (by omega), ?_⟩
    rwa [Nat.sub_add_cancel hone]

/-- Before the last value that has pixels, all others have been passed. -/
theorem exists_last (h : f 0 < total) :
    ∃ b, 1 ≤ b ∧ b ≤ max ∧ 0 < f b ∧ passed f b + f b = total := by
  obtain ⟨b, hone, hle, hpos⟩ := (lt_total_iff htotal).mp h
  have hspec := Nat.findGreatest_spec (P := fun b => 0 < f b) hle hpos
  have hge := Nat.le_findGreatest (P := fun b => 0 < f b) hle hpos
  have hmax := Nat.findGreatest_le (P := fun b => 0 < f b) max
  have hnone : ∀ i ∈ Finset.range (max + 1),
      i ∉ Finset.range (Nat.findGreatest (fun b => 0 < f b) max + 1) → f i = 0 := by
    intro i hi hnot
    rw [Finset.mem_range] at hi hnot
    exact Nat.eq_zero_of_not_pos
      (Nat.findGreatest_is_greatest (n := max) (P := fun b => 0 < f b) (by omega) (by omega))
  refine ⟨_, hone.trans hge, hmax, hspec, ?_⟩
  rw [← passed_succ, ← htotal]
  exact Finset.sum_subset (Finset.range_subset_range.mpr (by omega)) hnone

/-- A scan stops exactly if the first value does not have all pixels. -/
theorem isSome_cutAt (hlt : total < 2 ^ 53) (bin : ℕ → ℕ) :
    (cutAt Float total 0 ((List.range max).map fun i => (bin i, f i, f (i + 1)))).isSome = true
      ↔ f 0 < total := by
  rw [cutAt_range_find?, Option.isSome_map, List.find?_isSome]
  constructor
  · rintro ⟨i, hi, hcloser⟩
    rw [List.mem_range] at hi
    refine (lt_total_iff htotal).mpr ⟨i + 1, by omega, hi, Nat.pos_of_ne_zero fun hzero => ?_⟩
    rw [hzero] at hcloser
    exact not_isCloser_zero _ _ hcloser
  · intro h
    obtain ⟨b, hone, hle, hpos, hall⟩ := exists_last htotal h
    refine ⟨b - 1, List.mem_range.mpr (by omega), ?_⟩
    rw [Nat.sub_add_cancel hone, ← hall]
    exact isCloser_last hpos (by omega)

end Levels

end Darkroom
