import Darkroom.Json.Numeral
import Darkroom.Proofs.Decimal.Large

/-!
# Significands scaled by powers of ten

A significand and a power of ten are each rounded to a double before they are multiplied, so a
decimal below the largest double can scale to infinity. It does not with some room above
(`scaled?_of_le`), nor for the digits of a double other than the largest (`scaled?_of_large`).
-/

namespace Darkroom.Numeral

open Decimal

theorem scaled?_of_neg {significand : Nat} {exponent : Int} (h : exponent < 0) :
    (scaled? significand exponent).isSome := by
  rw [scaled?, if_pos h]
  rfl

/-- The two factors as doubles decide. -/
theorem scaled?_of_rounded {significand exponent m₁ m₂ : Nat} {q₁ q₂ : Int} (hpos : 0 < significand)
    (hexp : exponent ≤ 308) (h₁ : Rounded significand m₁ q₁) (h₂ : Rounded (10 ^ exponent) m₂ q₂)
    (hlt : (m₁ * 2 ^ q₁ : ℚ) * (m₂ * 2 ^ q₂) < overflowLimit) :
    (scaled? significand exponent).isSome := by
  have hx := ofScientific_rounded (E := 0) hpos (by omega) (by rwa [pow_zero, mul_one])
  have hy := ofScientific_rounded (D := 1) (E := exponent) (by omega) (by omega)
    (by rwa [Nat.cast_one, one_mul])
  have hfinite := isInf_mul h₁ h₂ (by exact_mod_cast hpos) (one_le_pow₀ (by norm_num)) hlt
  rw [scaled?, if_neg (by omega), if_neg (by omega), Int.natAbs_natCast, hx, hy]
  simp only
  rw [hfinite]
  rfl

/-! ## Numbers with room above -/

theorem zpow_two_top : (2 : ℚ) ^ (971 : Int) = 2 * 2 ^ 970 := by
  rw [zpow_ofNat, ← pow_succ']

theorem overflowLimit_eq : overflowLimit = (2 ^ 54 - 1) * 2 ^ 970 := by
  rw [overflowLimit, zpow_two_top]
  generalize (2 : ℚ) ^ 970 = a
  ring

/-- Numbers are compared with the limit as natural numbers. -/
theorem lt_overflowLimit_of_nat {a b : Nat} {v : ℚ} (hb : 0 < b) (hv : v * b ≤ a)
    (h : a < (2 ^ 54 - 1) * 2 ^ 970 * b) : v < overflowLimit := by
  have hb : (0 : ℚ) < b := by exact_mod_cast hb
  have hlimit : overflowLimit = (((2 ^ 54 - 1) * 2 ^ 970 : Nat) : ℚ) := by
    rw [overflowLimit_eq, Nat.cast_mul, Nat.cast_pow, Nat.cast_sub Nat.one_le_two_pow]
    push_cast
    rfl
  rw [← mul_lt_mul_iff_of_pos_right hb, hlimit]
  exact lt_of_le_of_lt hv (by exact_mod_cast h)

/-- Both factors may be rounded up in full. -/
theorem scaled?_of_le {significand exponent bound : Nat} (hpos : 0 < significand)
    (hexp : exponent ≤ 308) (hle : significand * 10 ^ exponent ≤ bound)
    (hbound : bound * (2 ^ 52 + 1) ^ 2 < (2 ^ 54 - 1) * 2 ^ 970 * (2 ^ 52) ^ 2) :
    (scaled? significand exponent).isSome := by
  have hlimit : (significand * 10 ^ exponent : ℚ) * (1 + 1 / 2 ^ 52) ^ 2 < overflowLimit := by
    refine lt_overflowLimit_of_nat (by decide) ?_ hbound
    have hle : (significand * 10 ^ exponent : ℚ) ≤ bound := by exact_mod_cast hle
    simp only [Nat.cast_mul, Nat.cast_pow, Nat.cast_add, Nat.cast_ofNat, Nat.cast_one]
    calc (significand * 10 ^ exponent * (1 + 1 / 2 ^ 52) ^ 2 * (2 ^ 52) ^ 2 : ℚ)
        = significand * 10 ^ exponent * (2 ^ 52 + 1) ^ 2 := by ring
      _ ≤ bound * (2 ^ 52 + 1) ^ 2 := mul_le_mul_of_nonneg_right hle (by positivity)
  have hsignificand : (1 : ℚ) ≤ significand := by exact_mod_cast hpos
  have hten : (1 : ℚ) ≤ 10 ^ exponent := one_le_pow₀ (by norm_num)
  have hproduct : (significand * 10 ^ exponent : ℚ)
      ≤ significand * 10 ^ exponent * (1 + 1 / 2 ^ 52) ^ 2 :=
    le_mul_of_one_le_right (by positivity) (by norm_num)
  obtain ⟨m₁, q₁, h₁⟩ := exists_rounded hsignificand (lt_of_le_of_lt
    (le_trans (le_mul_of_one_le_right (by positivity) hten) hproduct) hlimit)
  obtain ⟨m₂, q₂, h₂⟩ := exists_rounded hten (lt_of_le_of_lt
    (le_trans (le_mul_of_one_le_left (by positivity) hsignificand) hproduct) hlimit)
  refine scaled?_of_rounded hpos hexp h₁ h₂ (lt_of_le_of_lt ?_ hlimit)
  calc (m₁ * 2 ^ q₁ : ℚ) * (m₂ * 2 ^ q₂)
      ≤ significand * (1 + 1 / 2 ^ 52) * (10 ^ exponent * (1 + 1 / 2 ^ 52)) :=
        mul_le_mul h₁.le_mul h₂.le_mul (by linarith [h₂.one_le hten]) (by positivity)
    _ = significand * 10 ^ exponent * (1 + 1 / 2 ^ 52) ^ 2 := by ring

/-! ## Numbers close to the limit -/

/-- A natural number less than half a unit away from 53 bits. -/
theorem rounded_of_nat {v m q : Nat} (hc : Canonical m q) (hfull : 2 ^ 52 ≤ m)
    (hv : 2 ^ 52 * 2 ^ q ≤ v) (hlow : 2 * m * 2 ^ q < 2 * v + 2 ^ q)
    (hhigh : 2 * v < 2 * m * 2 ^ q + 2 ^ q) : Rounded v m q := by
  have hpos : (0 : ℚ) < 2 ^ q := by positivity
  have hv : (2 ^ 52 * 2 ^ q : ℚ) ≤ v := by exact_mod_cast hv
  have hlow : (2 * m * 2 ^ q : ℚ) < 2 * v + 2 ^ q := by exact_mod_cast hlow
  have hhigh : (2 * v : ℚ) < 2 * m * 2 ^ q + 2 ^ q := by exact_mod_cast hhigh
  have hbelow : (m : ℚ) - 1 / 2 < v / 2 ^ q := by
    rw [lt_div_iff₀ hpos]
    linarith
  have habove : (v : ℚ) / 2 ^ q < m + 1 / 2 := by
    rw [div_lt_iff₀ hpos]
    linarith
  refine ⟨hc, hfull, near_of_roundsTo ⟨?_, ?_, fun _ => ⟨?_, ?_⟩⟩ ?_⟩ <;> rw [zpow_natCast]
  · exact hbelow.le
  · exact habove.le
  · exact hbelow
  · exact habove
  · rwa [le_div_iff₀ hpos]

/-- The only power of ten whose double has to be known. -/
theorem rounded_ten_pow : Rounded ((10 ^ 292 : Nat) : ℚ) 0x1008896bcf54fa (918 : Nat) :=
  rounded_of_nat ⟨by decide, by decide, by decide, by decide, Or.inl (by decide)⟩ (by decide)
    (by decide +kernel) (by decide +kernel) (by decide +kernel)

/-- A number of at most 54 bits, less two, is raised by at most one. -/
theorem rounded_le_succ {v : Nat} {m : Nat} {q : Int} (h : Rounded v m q) (hv : v + 2 < 2 ^ 54) :
    (m * 2 ^ q : ℚ) ≤ v + 1 := by
  have hv : (v : ℚ) + 2 < 2 ^ 54 := by exact_mod_cast hv
  have hfull := h.full_le
  have hexp : q < 2 := by
    refine lt_of_zpow_lt ?_
    rw [zpow_ofNat]
    have hpos := zpow_two_pos q
    by_contra hge
    linarith
  have hle : (2 : ℚ) ^ q ≤ 2 ^ (1 : Int) := zpow_le_zpow_right₀ (by norm_num) (by omega)
  rw [zpow_one] at hle
  linarith [h.le_add]

/-- Up to 53 bits a number is a double. -/
theorem rounded_self {v : Nat} (hpos : 0 < v) (hlt : v < 2 ^ 53) :
    ∃ (m : Nat) (q : Int), Rounded v m q ∧ (m * 2 ^ q : ℚ) = v := by
  have hvalue := value_shifted hpos hlt
  refine ⟨_, _, ⟨canonical_shifted hpos hlt, (full_shifted hpos hlt).1, ?_⟩, hvalue⟩
  rw [← hvalue, mul_div_cancel_right₀ _ (zpow_two_pos _).ne']
  exact near_self _ _

theorem exists_ten_pow {significand exponent : Nat} (hpos : 0 < significand)
    (hle : significand * 10 ^ exponent ≤ (2 ^ 54 - 3) * 2 ^ 970) :
    ∃ (m : Nat) (q : Int), Rounded (10 ^ exponent) m q := by
  have hten : 10 ^ exponent ≤ (2 ^ 54 - 3) * 2 ^ 970 :=
    le_trans (Nat.le_mul_of_pos_left _ hpos) hle
  have hlt : 10 ^ exponent < (2 ^ 54 - 1) * 2 ^ 970 * 1 := by
    rw [Nat.mul_one]
    exact lt_of_le_of_lt hten (Nat.mul_lt_mul_of_pos_right (by decide) (by positivity))
  refine exists_rounded (one_le_pow₀ (by norm_num))
    (lt_overflowLimit_of_nat (b := 1) (by decide) ?_ hlt)
  rw [Nat.cast_one, mul_one, Nat.cast_pow, Nat.cast_ofNat]

/-- The digits of a double with an exponent that large, the largest double apart. -/
theorem scaled?_of_large {significand exponent : Nat} (hpos : 0 < significand)
    (hlow : 292 ≤ exponent) (hhigh : exponent ≤ 308)
    (hle : significand * 10 ^ exponent ≤ (2 ^ 54 - 3) * 2 ^ 970) :
    (scaled? significand exponent).isSome := by
  rcases Nat.lt_or_eq_of_le hlow with hgt | rfl
  · -- With a larger power of ten there are few enough digits for a significand that is exact.
    have hunits : significand * 10 ^ exponent = significand * 10 ^ (exponent - 293) * 10 ^ 293 := by
      rw [Nat.mul_assoc, ← Nat.pow_add]
      congr 2
      omega
    have hfew : significand * 10 ^ (exponent - 293) ≤ 1797693134862315 := by
      have hquotient : (2 ^ 54 - 3) * 2 ^ 970 / 10 ^ 293 = 1797693134862315 := by decide +kernel
      rw [← hquotient, Nat.le_div_iff_mul_le (by decide +kernel), ← hunits]
      exact hle
    have hexact : significand < 2 ^ 53 :=
      lt_of_le_of_lt (Nat.le_mul_of_pos_right _ (by positivity)) (lt_of_le_of_lt hfew (by decide))
    have hbound : significand * 10 ^ exponent ≤ 1797693134862315 * 10 ^ 293 := by
      rw [hunits]
      exact Nat.mul_le_mul_right _ hfew
    obtain ⟨m₁, q₁, h₁, hvalue⟩ := rounded_self hpos hexact
    obtain ⟨m₂, q₂, h₂⟩ := exists_ten_pow hpos hle
    refine scaled?_of_rounded hpos hhigh h₁ h₂ ?_
    rw [hvalue]
    refine lt_overflowLimit_of_nat (a := 1797693134862315 * 10 ^ 293 * (2 ^ 52 + 1)) (b := 2 ^ 52)
      (by decide) ?_ (by decide +kernel)
    have hbound : (significand * 10 ^ exponent : ℚ) ≤ (1797693134862315 * 10 ^ 293 : Nat) := by
      exact_mod_cast hbound
    rw [Nat.cast_mul (1797693134862315 * 10 ^ 293)]
    generalize ((1797693134862315 * 10 ^ 293 : Nat) : ℚ) = bound at hbound ⊢
    simp only [Nat.cast_pow, Nat.cast_add, Nat.cast_ofNat, Nat.cast_one]
    calc (significand * (m₂ * 2 ^ q₂) * 2 ^ 52 : ℚ)
        ≤ significand * (10 ^ exponent * (1 + 1 / 2 ^ 52)) * 2 ^ 52 := by
          have hle := mul_le_mul_of_nonneg_left h₂.le_mul (Nat.cast_nonneg (α := ℚ) significand)
          exact mul_le_mul_of_nonneg_right hle (by positivity)
      _ = significand * 10 ^ exponent * (2 ^ 52 + 1) := by ring
      _ ≤ bound * (2 ^ 52 + 1) := mul_le_mul_of_nonneg_right hbound (by positivity)
  · have hdigits : significand ≤ 17976931348623156 := by
      have hquotient : (2 ^ 54 - 3) * 2 ^ 970 / 10 ^ 292 = 17976931348623156 := by decide +kernel
      rw [← hquotient, Nat.le_div_iff_mul_le (by decide +kernel)]
      exact hle
    obtain ⟨m₁, q₁, h₁⟩ := exists_rounded (v := significand) (by exact_mod_cast hpos)
      (lt_overflowLimit_of_nat (b := 1) (by decide) (by rw [Nat.cast_one, mul_one])
        (lt_of_le_of_lt hdigits (by decide +kernel)))
    have hsucc : (m₁ * 2 ^ q₁ : ℚ) ≤ significand + 1 := rounded_le_succ h₁ (by omega)
    have hten : Rounded (10 ^ 292) 0x1008896bcf54fa (918 : Nat) := by
      have hrounded := rounded_ten_pow
      rwa [Nat.cast_pow, Nat.cast_ofNat] at hrounded
    refine scaled?_of_rounded hpos hhigh h₁ hten ?_
    refine lt_overflowLimit_of_nat (a := 17976931348623157 * (0x1008896bcf54fa * 2 ^ 918)) (b := 1)
      (by decide) ?_ (by decide +kernel)
    have hdigits : (significand : ℚ) + 1 ≤ 17976931348623157 := by
      exact_mod_cast Nat.succ_le_succ hdigits
    rw [Nat.cast_one, mul_one, Nat.cast_mul, Nat.cast_mul, Nat.cast_pow, zpow_natCast]
    exact mul_le_mul_of_nonneg_right (hsucc.trans hdigits) (by positivity)

end Darkroom.Numeral
