import Darkroom.Proofs.Decimal.WholePart

/-!
# Differences of doubles

The difference of two doubles is taken exactly, at the smaller exponent, and rounded once
(`ofCanonical_sub`); it is never too small for a double (`exists_near_sub`). Rounding does not cross a
double (`Near.le_of_le`), and what falls short of a double by more than half a unit in its last place
stays below it (`Near.lt_of_lt`). So differences can be compared where they are rounded.
-/

namespace Darkroom.Decimal

open Float.Model (Format UnpackedFloat totalExponent)
open Float.Model.UnpackedFloat

/-! ## Canonical numbers of different exponents -/

/-- A number is a whole number of smaller units. -/
theorem exists_units (M : ℕ) {q Q : ℤ} (h : q ≤ Q) : ∃ k : ℕ, (M * 2 ^ Q : ℚ) = k * 2 ^ q := by
  refine ⟨M * 2 ^ (Q - q).toNat, ?_⟩
  have hexp : Q = (Q - q).toNat + q := by omega
  push_cast
  rw [mul_assoc, ← zpow_two_add, ← hexp]

section

variable {m M : ℕ} {q Q : ℤ} (hc : Canonical m q) (hC : Canonical M Q)
include hc hC

/-- The number with the smaller exponent lies below all full significands of the larger one. -/
theorem Canonical.le_of_exponent_lt (h : Q < q) :
    (M * 2 ^ Q : ℚ) ≤ (2 ^ 52 - 1 / 2) * 2 ^ q ∧ (2 : ℚ) ^ 52 ≤ m := by
  have hlow := hC.low
  refine ⟨?_, by exact_mod_cast hc.full.resolve_right (by omega)⟩
  have hM : (M : ℚ) ≤ 2 ^ 53 - 1 := by
    have hlt : (M : ℚ) + 1 ≤ 2 ^ 53 := by exact_mod_cast hC.lt
    linarith
  have hstep : (2 : ℚ) ^ Q * 2 ≤ 2 ^ q := by
    rw [← zpow_add_one₀ (by norm_num)]
    exact zpow_le_zpow_right₀ (by norm_num) h
  calc (M * 2 ^ Q : ℚ) ≤ (2 ^ 53 - 1) * 2 ^ Q :=
        mul_le_mul_of_nonneg_right hM (zpow_two_pos Q).le
    _ = (2 ^ 52 - 1 / 2) * (2 ^ Q * 2) := by ring
    _ ≤ (2 ^ 52 - 1 / 2) * 2 ^ q := mul_le_mul_of_nonneg_left hstep (by norm_num)

theorem Canonical.exponent_le (h : (m * 2 ^ q : ℚ) ≤ M * 2 ^ Q) : q ≤ Q := by
  by_contra hlt
  obtain ⟨hle, hfull⟩ := hc.le_of_exponent_lt hC (not_le.mp hlt)
  have hge : (2 ^ 52 : ℚ) * 2 ^ q ≤ m * 2 ^ q :=
    mul_le_mul_of_nonneg_right hfull (zpow_two_pos q).le
  linarith [zpow_two_pos q]

/-- A number has one canonical form. -/
theorem Canonical.eq_of_value (h : (m * 2 ^ q : ℚ) = M * 2 ^ Q) : m = M ∧ q = Q := by
  obtain rfl : q = Q := le_antisymm (hc.exponent_le hC h.le) (hC.exponent_le hc h.ge)
  exact ⟨by exact_mod_cast mul_right_cancel₀ (zpow_two_pos q).ne' h, rfl⟩

theorem ofCanonical_lt (h : (m * 2 ^ q : ℚ) < M * 2 ^ Q) :
    ofCanonical .positive hc < ofCanonical .positive hC := by
  have hlt : ofCanonical .positive hc < ofCanonical .positive hC
      ↔ (some ((compare q Q).then (compare m M)) == some .lt) = true := by
    rw [lt_iff_unpack, ofCanonical, ofCanonical, unpack_pack hc, unpack_pack hC]
    rfl
  rw [hlt]
  rcases (hc.exponent_le hC h.le).lt_or_eq with hexp | rfl
  · rw [compare_lt_iff_lt.mpr hexp]
    rfl
  · have hm : m < M := by exact_mod_cast lt_of_mul_lt_mul_right h (zpow_two_pos q).le
    rw [compare_eq_iff_eq.mpr rfl, compare_lt_iff_lt.mpr hm]
    rfl

/-! ## Rounding and order -/

variable {v : ℚ} (h : Near m q (v / 2 ^ q))
include h

omit hc hC in
/-- What rounds to a number is short of it by half a unit at most. -/
theorem Near.short_le : ((m : ℚ) - 1 / 2) * 2 ^ q ≤ v := by
  rw [← le_div_iff₀ (zpow_two_pos q)]
  linarith [h.ge, reachBelow_le m q]

/-- Rounding does not cross a double from below. -/
theorem Near.le_of_le (hv : v ≤ M * 2 ^ Q) : (m * 2 ^ q : ℚ) ≤ M * 2 ^ Q := by
  have hpos := zpow_two_pos q
  by_contra hlt
  rw [not_le] at hlt
  rcases le_or_gt q Q with hexp | hexp
  · obtain ⟨k, hk⟩ := exists_units M hexp
    rw [hk] at hlt hv
    have hkm : (k : ℚ) + 1 ≤ m := by
      exact_mod_cast lt_of_mul_lt_mul_right hlt hpos.le
    have hshort : ((m : ℚ) - 1 / 2) * 2 ^ q ≤ k * 2 ^ q := h.short_le.trans hv
    linarith [le_of_mul_le_mul_right hshort hpos]
  · -- Below a power of two the numbers are closer, but so is the reach of the power.
    obtain ⟨hle, hfull⟩ := hc.le_of_exponent_lt hC hexp
    have hlow := hC.low
    have hbelow : (m - reachBelow m q) * 2 ^ q ≤ (2 ^ 52 - 1 / 2) * 2 ^ q := by
      have hge := mul_le_mul_of_nonneg_right h.ge hpos.le
      rw [← eq_units] at hge
      linarith
    have hreach := le_of_mul_le_mul_right hbelow hpos
    by_cases hm : m = 2 ^ 52
    · rw [reachBelow, if_pos ⟨hm, by omega⟩] at hreach
      linarith
    · have hgt : (2 : ℚ) ^ 52 < m := lt_of_le_of_ne hfull (by exact_mod_cast Ne.symm hm)
      linarith [reachBelow_le m q]

/-- What is short of a double by more than half a unit is rounded to a smaller one. -/
theorem Near.lt_of_lt (hv : v < (M - 1 / 2) * 2 ^ Q) : (m * 2 ^ q : ℚ) < M * 2 ^ Q := by
  have hpos := zpow_two_pos q
  have hshort := h.short_le
  by_contra hge
  rw [not_lt] at hge
  rcases le_or_gt q Q with hexp | hexp
  · have hunit : (2 : ℚ) ^ q ≤ 2 ^ Q := zpow_le_zpow_right₀ (by norm_num) hexp
    linarith
  · obtain ⟨hle, hfull⟩ := hc.le_of_exponent_lt hC hexp
    have hmul : (2 ^ 52 - 1 / 2) * 2 ^ q ≤ (m - 1 / 2 : ℚ) * 2 ^ q :=
      mul_le_mul_of_nonneg_right (by linarith) hpos.le
    linarith [zpow_two_pos Q]

end

/-! ## Rounding an exact number -/

theorem log2_shiftLeft {n : ℕ} (hn : 0 < n) (k : ℕ) : (n <<< k).log2 = n.log2 + k := by
  rw [Nat.shiftLeft_eq, Nat.log2_eq_iff (Nat.mul_pos hn (Nat.two_pow_pos k)).ne', Nat.pow_add,
    Nat.add_right_comm, Nat.pow_add]
  exact ⟨Nat.mul_le_mul_right _ (Nat.log2_self_le hn.ne'),
    Nat.mul_lt_mul_of_pos_right Nat.lt_log2_self (Nat.two_pow_pos k)⟩

section

variable {m n : ℕ} {e q : ℤ} {u : ℚ} (hc : Canonical m q) (hu : Near m q u)
include hu

/-- An exact number is rounded to the number that it is near, whatever its exponent. -/
theorem round_eq (hn : 0 < n) (hval : (n * 2 ^ e : ℚ) = u * 2 ^ q) (s : Sign) :
    UnpackedFloat.round .binary64 s n e = .finite s m q hc.pos := by
  have hround : ∀ k : ℕ, k = (e - Format.binary64.targetExponent (totalExponent n e)).toNat →
      UnpackedFloat.round .binary64 s n e
        = roundWithAccuracy .binary64 s (n <<< k) (e - k) .exact := by
    rintro k rfl
    rfl
  rw [hround _ rfl]
  generalize hk : (e - Format.binary64.targetExponent (totalExponent n e)).toNat = k
  have htotal : totalExponent (n <<< k) (e - k) = totalExponent n e := by
    rw [totalExponent, totalExponent, log2_shiftLeft hn]
    push_cast
    omega
  have hexact : Locates (ExtendedMantissa.ofMantissaAndAccuracy (n <<< k) .exact)
    ((n <<< k : ℕ) : ℚ) := rfl
  refine roundWithAccuracy_eq hc hu hexact ?_ ?_ s
  · have hexp : e = k + (e - k) := by omega
    rw [← hval, Nat.shiftLeft_eq]
    conv_rhs => rw [hexp, zpow_two_add]
    push_cast
    ring
  · rw [htotal]
    omega

end

/-! ## Differences -/

section

variable {m₁ m₂ : ℕ} {q₁ q₂ : ℤ}

/-- A number as a multiple of a smaller power of two. -/
theorem value_aligned (n : ℕ) {e t : ℤ} (h : t ≤ e) :
    ((n <<< (e - t).toNat : ℕ) * 2 ^ t : ℚ) = n * 2 ^ e := by
  have hexp : e = (e - t).toNat + t := by omega
  conv_rhs => rw [hexp, zpow_two_add]
  rw [Nat.shiftLeft_eq]
  push_cast
  ring

theorem sub_aligned (h₁ : 0 < m₁) (h₂ : 0 < m₂) :
    UnpackedFloat.sub .binary64 (.finite .positive m₁ q₁ h₁) (.finite .positive m₂ q₂ h₂)
      = UnpackedFloat.normalize .binary64
          ((m₁ <<< (q₁ - min q₁ q₂).toNat : ℕ) - (m₂ <<< (q₂ - min q₁ q₂).toNat : ℕ))
          (min q₁ q₂) .positive :=
  rfl

variable (h₁ : Canonical m₁ q₁) (h₂ : Canonical m₂ q₂)

theorem sub_unpack :
    ofCanonical .positive h₁ - ofCanonical .positive h₂
      = .ofModel (.pack (UnpackedFloat.sub .binary64 (.finite .positive m₁ q₁ h₁.pos)
          (.finite .positive m₂ q₂ h₂.pos))) := by
  have hsub : ofCanonical .positive h₁ - ofCanonical .positive h₂
      = .ofModel (.pack (UnpackedFloat.sub .binary64
          (Float.Model.pack (.finite .positive m₁ q₁ h₁.pos)).unpack
          (Float.Model.pack (.finite .positive m₂ q₂ h₂.pos)).unpack)) := rfl
  rw [hsub, unpack_pack h₁, unpack_pack h₂]

theorem ofCanonical_sub_self :
    ofCanonical .positive h₁ - ofCanonical .positive h₁ = Float.ofNat 0 := by
  rw [sub_unpack, sub_aligned, Int.sub_self]
  rfl

variable {m : ℕ} {q : ℤ} {u : ℚ} (hc : Canonical m q) (hu : Near m q u)
include hu

/-- A difference at one exponent is rounded in the same way from both sides. -/
theorem normalize_sub {a b : ℕ} {e : ℤ} (hval : ((a - b) * 2 ^ e : ℚ) = u * 2 ^ q) (zero : Sign) :
    UnpackedFloat.normalize .binary64 (a - b) e zero = .finite .positive m q hc.pos
      ∧ UnpackedFloat.normalize .binary64 (b - a) e zero = .finite .negative m q hc.pos := by
  have hpos : (0 : ℚ) < (a - b) * 2 ^ e := by
    rw [hval]
    exact mul_pos (hu.pos hc.pos) (zpow_two_pos q)
  have hlt : b < a := by
    exact_mod_cast sub_pos.mp (pos_of_mul_pos_left hpos (zpow_two_pos e).le)
  have hround := round_eq hc hu (n := a - b) (by omega) (by rw [Nat.cast_sub hlt.le, hval])
  have hgt : compare ((a : ℤ) - b) 0 = .gt := compare_gt_iff_gt.mpr (by omega)
  have hless : compare ((b : ℤ) - a) 0 = .lt := compare_lt_iff_lt.mpr (by omega)
  have hforth : ((a : ℤ) - b).toNat = a - b := by omega
  have hback : (-((b : ℤ) - a)).toNat = a - b := by omega
  constructor
  · rw [UnpackedFloat.normalize, hgt]
    simp only [hforth]
    exact hround .positive
  · rw [UnpackedFloat.normalize, hless]
    simp only [hback]
    exact hround .negative

/-- A difference is rounded to the number that it is near, and the opposite difference to the same
number below zero. -/
theorem ofCanonical_sub (hval : (m₁ * 2 ^ q₁ - m₂ * 2 ^ q₂ : ℚ) = u * 2 ^ q) :
    ofCanonical .positive h₁ - ofCanonical .positive h₂ = ofCanonical .positive hc
      ∧ ofCanonical .positive h₂ - ofCanonical .positive h₁ = ofCanonical .negative hc := by
  rw [← value_aligned m₁ (min_le_left q₁ q₂), ← value_aligned m₂ (min_le_right q₁ q₂),
    ← sub_mul] at hval
  constructor
  · rw [sub_unpack, sub_aligned, (normalize_sub hc hu hval .positive).1, ofCanonical]
  · rw [sub_unpack, sub_aligned, min_comm q₂ q₁, (normalize_sub hc hu hval .positive).2, ofCanonical]

end

/-- The difference of two doubles is never too small for a double. -/
theorem exists_near_sub {m₁ m₂ : ℕ} {q₁ q₂ : ℤ} (h₁ : Canonical m₁ q₁) (h₂ : Canonical m₂ q₂)
    (hlt : (m₂ * 2 ^ q₂ : ℚ) < m₁ * 2 ^ q₁) :
    ∃ (m : ℕ) (q : ℤ), Canonical m q ∧ Near m q ((m₁ * 2 ^ q₁ - m₂ * 2 ^ q₂) / 2 ^ q) := by
  have hpos := zpow_two_pos (-1074)
  obtain ⟨k₁, hk₁⟩ := exists_units m₁ h₁.low
  obtain ⟨k₂, hk₂⟩ := exists_units m₂ h₂.low
  refine exists_near ?_ ?_
  · rw [hk₁, hk₂] at hlt ⊢
    have hstep : (k₂ : ℚ) + 1 ≤ k₁ := by exact_mod_cast lt_of_mul_lt_mul_right hlt hpos.le
    rw [← sub_mul]
    exact le_mul_of_one_le_left hpos.le (by linarith)
  · have hnonneg : (0 : ℚ) ≤ m₂ * 2 ^ q₂ := mul_nonneg m₂.cast_nonneg (zpow_two_pos q₂).le
    exact lt_of_le_of_lt (sub_le_self _ hnonneg) (lt_overflowLimit h₁ (near_self m₁ q₁))

end Darkroom.Decimal
