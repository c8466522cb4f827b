import Darkroom.Proofs.Decimal.Overflow
import Darkroom.Proofs.Decimal.Quotient

/-!
# Whole parts of doubles

A double that is neither below zero nor at least one, times a natural number with all bits set, has a
whole part below that number, however the product is rounded (`wholePart_mul_lt`). The factor falls short
of one by at least half a unit in the last place of one, and this is more than rounding gives back.
-/

namespace Darkroom.Decimal

open Float.Model (UnpackedFloat)

/-! ## Near values of any size -/

/-- Below the full significands the exponent stays where it is. -/
theorem exists_near_small {v : ℚ} (hlow : 2 ^ (-1074 : ℤ) ≤ v) (hhigh : v < 2 ^ (-1022 : ℤ)) :
    ∃ m, Canonical m (-1074) ∧ Near m (-1074) (v / 2 ^ (-1074 : ℤ)) := by
  have hpos := zpow_two_pos (-1074)
  have hulow : 1 ≤ v / 2 ^ (-1074 : ℤ) := (one_le_div hpos).mpr hlow
  have huhigh : v / 2 ^ (-1074 : ℤ) < 2 ^ 52 := by
    rw [div_lt_iff₀ hpos, ← zpow_two_add]
    exact hhigh
  obtain ⟨m, hm⟩ := exists_roundsTo (zero_le_one.trans hulow)
  have hmlow : 0 < m := by
    have hlt : (0 : ℚ) < m := by linarith [hm.le]
    exact_mod_cast hlt
  have hmhigh : m < 2 ^ 53 := by
    have hlt : (m : ℚ) < 2 ^ 53 := by linarith [hm.ge]
    exact_mod_cast hlt
  have hreach : reachBelow m (-1074) = 1 / 2 := if_neg fun h => lt_irrefl _ h.2
  refine ⟨m, ⟨hmlow, hmhigh, le_rfl, by decide, .inr rfl⟩, ?_, hm.le, fun hodd => ?_⟩
  · rw [hreach]
    exact hm.ge
  · rw [hreach]
    exact hm.odd hodd

theorem exists_near {v : ℚ} (hlow : 2 ^ (-1074 : ℤ) ≤ v) (hhigh : v < overflowLimit) :
    ∃ (m : ℕ) (q : ℤ), Canonical m q ∧ Near m q (v / 2 ^ q) := by
  rcases lt_or_ge v (2 ^ (-1022 : ℤ)) with hsmall | hnormal
  · obtain ⟨m, hc, hnear⟩ := exists_near_small hlow hsmall
    exact ⟨m, -1074, hc, hnear⟩
  · obtain ⟨m, q, h⟩ := exists_rounded_normal hnormal hhigh
    exact ⟨m, q, h.canonical, h.near⟩

/-! ## Whole parts -/

/-- The bits of a double give back the number that it packs. -/
theorem wholePart_ofCanonical {m : ℕ} {q : ℤ} (h : Canonical m q) :
    wholePart (ofCanonical .positive h)
      = min ((m <<< q.toNat) >>> (-q).toNat) (UInt64.size - 1) := by
  have hunpack : (ofCanonical .positive h).toModel.unpack = .finite .positive m q h.pos :=
    unpack_pack h
  cases hk : FloatKind.ofFloat (ofCanonical .positive h) with
  | nan =>
    rw [eq_nan hk] at hunpack
    cases hunpack
  | infinite negative =>
    rw [eq_infinite hk] at hunpack
    cases negative <;> cases hunpack
  | finite negative b =>
    by_cases hm : b.m = 0
    · rw [zero_of_finite hk hm] at hunpack
      cases negative <;> cases hunpack
    · obtain ⟨hc, hx, -⟩ := canonical_of_finite hk hm
      rw [hx, ofCanonical] at hunpack
      have heq := (unpack_pack hc).symm.trans hunpack
      injection heq with hsign hm hq
      cases negative with
      | true => cases hsign
      | false =>
        simp only [wholePart, hk, Binary.whole, hm, hq]

theorem shifted_lt {m n : ℕ} {q : ℤ} (h : (m * 2 ^ q : ℚ) < n) :
    (m <<< q.toNat) >>> (-q).toNat < n := by
  rw [zpow_eq_div (by norm_num), ← mul_div_assoc, div_lt_iff₀ (by positivity)] at h
  rw [Nat.shiftLeft_eq, Nat.shiftRight_eq_div_pow, Nat.div_lt_iff_lt_mul (by positivity)]
  exact_mod_cast h

/-! ## Products with a factor below one -/

/-- What is near a value short of a number with `k` bits, all of them set, does not reach the number. -/
theorem Near.lt_of_short {m k : ℕ} {q : ℤ} {v : ℚ} (hc : Canonical m q) (h : Near m q (v / 2 ^ q))
    (hk : 2 ≤ k) (hbits : k ≤ 52) (hv : v ≤ (2 ^ k - 1) * (1 - 1 / 2 ^ 53)) :
    (m * 2 ^ q : ℚ) < 2 ^ k - 1 := by
  have hlow : (4 : ℚ) ≤ 2 ^ k := by exact_mod_cast Nat.pow_le_pow_right (n := 2) (by decide) hk
  have hhigh : (2 : ℚ) ^ k ≤ 2 ^ 52 := pow_le_pow_right₀ (by norm_num) hbits
  have hge : (m - 1 / 2) * 2 ^ q ≤ v := by
    rw [← le_div_iff₀ (zpow_two_pos q)]
    linarith [h.ge, reachBelow_le m q]
  by_contra hreaches
  rw [not_lt] at hreaches
  -- Reaching the number takes units as large as those above it, and then half a unit less is
  -- still above the value.
  have hunit : (2 : ℚ) ^ ((k : ℤ) - 53) < 2 ^ q := by
    rw [zpow_sub₀ (by norm_num), zpow_natCast, zpow_ofNat]
    linarith
  have hexp : (k : ℤ) - 53 < q := lt_of_zpow_lt hunit
  have hnext : (2 : ℚ) ^ k / 2 ^ 52 ≤ 2 ^ q := by
    have hle : (2 : ℚ) ^ ((k : ℤ) - 52) ≤ 2 ^ q := zpow_le_zpow_right₀ (by norm_num) (by omega)
    rwa [zpow_sub₀ (by norm_num), zpow_natCast, zpow_ofNat] at hle
  have hfull : (2 : ℚ) ^ 52 ≤ m := by exact_mod_cast hc.full.resolve_right (by omega)
  have hproduct : (2 ^ 52 - 1 / 2 : ℚ) * (2 ^ k / 2 ^ 52) ≤ (m - 1 / 2) * 2 ^ q :=
    mul_le_mul (by linarith) hnext (by positivity) (by linarith)
  linarith

theorem exactly_one : ∃ hc : Canonical (2 ^ 52) (-52), (1.0 : Float) = ofCanonical .positive hc :=
  ⟨⟨by decide, by decide, by decide, by decide, .inl le_rfl⟩, rfl⟩

/-- A double below one is short of it by half a unit in the last place of one. -/
theorem le_of_not_one_le {m : ℕ} {q : ℤ} (hc : Canonical m q)
    (h : ¬ofCanonical .positive hc ≥ 1.0) : (m * 2 ^ q : ℚ) ≤ 1 - 1 / 2 ^ 53 := by
  obtain ⟨hone, heq⟩ := exactly_one
  have hle : ofCanonical .positive hone ≤ ofCanonical .positive hc
      ↔ ((compare (-52) q).then (compare (2 ^ 52) m)).isLE := by
    rw [le_iff_unpack, ofCanonical, ofCanonical, unpack_pack hone, unpack_pack hc]
    rfl
  rw [ge_iff_le, heq, hle] at h
  have hexp : q ≤ -53 := by
    by_contra hlt
    rcases lt_or_eq_of_le (show -52 ≤ q by omega) with hlt | rfl
    · rw [compare_lt_iff_lt.mpr hlt] at h
      exact h rfl
    · rw [compare_eq_iff_eq.mpr rfl] at h
      exact h (Nat.isLE_compare.mpr (hc.full.resolve_right (by decide)))
  have hm : (m : ℚ) ≤ 2 ^ 53 - 1 := by
    have hlt : (m : ℚ) + 1 ≤ 2 ^ 53 := by exact_mod_cast hc.lt
    linarith
  calc (m * 2 ^ q : ℚ) ≤ (2 ^ 53 - 1) * 2 ^ (-53 : ℤ) :=
        mul_le_mul hm (zpow_le_zpow_right₀ (by norm_num) hexp) (zpow_two_pos q).le (by norm_num)
    _ = 1 - 1 / 2 ^ 53 := by norm_num

section Product

variable {x : Float} {n k : ℕ} (hk : 2 ≤ k) (hbits : k ≤ 52) (hn : n + 1 = 2 ^ k)
include hk hbits hn

theorem wholePart_mul_of_canonical {m : ℕ} {q : ℤ} (hc : Canonical m q)
    (h : ¬ofCanonical .positive hc ≥ 1.0) :
    wholePart (ofCanonical .positive hc * Float.ofNat n) < n := by
  have hle := Nat.pow_le_pow_right (n := 2) (by decide) hk
  have hlt := Nat.pow_le_pow_right (n := 2) (by decide) hbits
  obtain ⟨m', q', hc', heq, hfull, hval⟩ := exactly_ofNat (n := n) (by omega) (by omega)
  have hcast : (n : ℚ) = 2 ^ k - 1 := by
    have hsum : (n : ℚ) + 1 = 2 ^ k := by exact_mod_cast hn
    linarith
  have hshort := le_of_not_one_le hc h
  have hone : (1 : ℚ) ≤ n := by exact_mod_cast (show 1 ≤ n by omega)
  have hunit : (2 : ℚ) ^ (-1074 : ℤ) ≤ m * 2 ^ q :=
    calc (2 : ℚ) ^ (-1074 : ℤ) ≤ 2 ^ q := zpow_le_zpow_right₀ (by norm_num) hc.low
      _ ≤ m * 2 ^ q :=
        le_mul_of_one_le_left (zpow_two_pos q).le (by exact_mod_cast hc.pos)
  have hlow : (2 : ℚ) ^ (-1074 : ℤ) ≤ m * 2 ^ q * n :=
    hunit.trans (le_mul_of_one_le_right ((zpow_two_pos _).le.trans hunit) hone)
  have hv : (m * 2 ^ q * n : ℚ) ≤ (2 ^ k - 1) * (1 - 1 / 2 ^ 53) := by
    rw [mul_comm, hcast]
    exact mul_le_mul_of_nonneg_left hshort (by linarith)
  have hhigh : (m * 2 ^ q * n : ℚ) < overflowLimit := by
    have hself := lt_overflowLimit hc' (near_self m' q')
    rw [hval] at hself
    refine lt_of_le_of_lt (mul_le_of_le_one_left (by linarith) ?_) hself
    exact hshort.trans (by norm_num)
  obtain ⟨m'', q'', hc'', hnear⟩ := exists_near hlow hhigh
  have hproduct : ofCanonical .positive hc * Float.ofNat n = ofCanonical .positive hc'' := by
    rw [heq, ofCanonical_mul, mul_eq hc.pos hc'.pos hc'' hnear
      (hfull.trans (Nat.le_mul_of_pos_left _ hc.pos)) (by rw [hval, ← eq_units]), ofCanonical]
  rw [hproduct, wholePart_ofCanonical]
  refine lt_of_le_of_lt (Nat.min_le_left _ _) (shifted_lt ?_)
  rw [hcast]
  exact hnear.lt_of_short hc'' hk hbits hv

/-- A product with a factor below one, or with no number at all, stays below the other factor. -/
theorem wholePart_mul_lt (hlow : ¬x < 0.0) (hhigh : ¬x ≥ 1.0) :
    wholePart (x * Float.ofNat n) < n := by
  have hle := Nat.pow_le_pow_right (n := 2) (by decide) hk
  have hlt := Nat.pow_le_pow_right (n := 2) (by decide) hbits
  obtain ⟨m', q', hc', heq, -, -⟩ := exactly_ofNat (n := n) (by omega) (by omega)
  have hmul : x * ofCanonical .positive hc' = .ofModel (.pack (UnpackedFloat.mul .binary64
      x.toModel.unpack (Float.Model.pack (.finite .positive m' q' hc'.pos)).unpack)) := rfl
  cases hx : FloatKind.ofFloat x with
  | nan =>
    obtain rfl := eq_nan hx
    have hunpack : (Float.ofModel (.pack .notANumber)).toModel.unpack = .notANumber := rfl
    have hproduct : wholePart (.ofModel (.pack .notANumber)) = 0 := rfl
    rw [heq, hmul, hunpack, unpack_pack hc', UnpackedFloat.mul, hproduct]
    omega
  | infinite negative =>
    obtain rfl := eq_infinite hx
    cases negative with
    | true => exact absurd (by decide) hlow
    | false => exact absurd (by decide) hhigh
  | finite negative b =>
    by_cases hm : b.m = 0
    · obtain rfl := zero_of_finite hx hm
      have hunpack : (Float.ofModel (.pack (.zero (signOf negative)))).toModel.unpack
          = .zero (signOf negative) := UnpackedFloat.unpack_packedZero
      have hproduct : ∀ s, wholePart (.ofModel (.pack (.zero s))) = 0 := by
        intro s
        cases s <;> rfl
      rw [heq, hmul, hunpack, unpack_pack hc', UnpackedFloat.mul, hproduct]
      omega
    · obtain ⟨hc, rfl, -⟩ := canonical_of_finite hx hm
      cases negative with
      | true =>
        refine absurd ?_ hlow
        rw [lt_iff_unpack, ofCanonical, unpack_pack hc]
        rfl
      | false => exact wholePart_mul_of_canonical hk hbits hn hc hhigh

end Product

end Darkroom.Decimal
