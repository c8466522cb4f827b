import Darkroom.Proofs.Decimal.Nearest
import Mathlib.Data.Int.Log

/-!
# Products that stay finite

Every number from one up to the point halfway to the first power of two beyond the doubles is near a
canonical number (`exists_rounded`). So a product of doubles below that point is no infinity
(`isInf_mul`).
-/

namespace Darkroom.Decimal

open Float.Model (Format UnpackedFloat)
open Float.Model.UnpackedFloat

/-- The least number that rounds to infinity. It lies halfway between the largest double and the
power of two that would follow it. -/
def overflowLimit : ℚ := (2 ^ 53 - 1 / 2) * 2 ^ (971 : Int)

theorem overflowLimit_lt : overflowLimit < 2 ^ (1024 : Int) :=
  calc overflowLimit < 2 ^ 53 * 2 ^ (971 : Int) :=
        mul_lt_mul_of_pos_right (by norm_num) (zpow_two_pos 971)
    _ = 2 ^ (1024 : Int) := (zpow_two_add 53 971).symm

/-- What is near a canonical number lies below the limit. -/
theorem lt_overflowLimit {m : Nat} {q : Int} {u : ℚ} (hc : Canonical m q) (hu : Near m q u) :
    u * 2 ^ q < overflowLimit := by
  have hpos := zpow_two_pos q
  have hm := hc.lt
  have hlt : u < 2 ^ 53 - 1 / 2 := by
    rcases Nat.mod_two_eq_zero_or_one m with heven | hodd
    · have hle : (m : ℚ) + 2 ≤ 2 ^ 53 := by exact_mod_cast (by omega : m + 2 ≤ 2 ^ 53)
      linarith [hu.le]
    · have hle : (m : ℚ) + 1 ≤ 2 ^ 53 := by exact_mod_cast hm
      linarith [(hu.odd hodd).2]
  have hexp : (2 : ℚ) ^ q ≤ 2 ^ (971 : Int) := zpow_le_zpow_right₀ (by norm_num) hc.high
  calc u * 2 ^ q < (2 ^ 53 - 1 / 2) * 2 ^ q := mul_lt_mul_of_pos_right hlt hpos
    _ ≤ overflowLimit := mul_le_mul_of_nonneg_left hexp (by norm_num)

/-! ## Rounding to a natural number -/

theorem exists_roundsTo {u : ℚ} (h : 0 ≤ u) : ∃ m : Nat, RoundsTo u m := by
  have hle := Nat.floor_le h
  have hlt := Nat.lt_floor_add_one u
  rcases lt_trichotomy u (⌊u⌋₊ + 1 / 2) with hsmall | hhalf | hlarge
  · exact ⟨⌊u⌋₊, by linarith, hsmall.le, fun _ => ⟨by linarith, hsmall⟩⟩
  · -- Halfway, so the even one of the two is taken.
    rcases Nat.even_or_odd ⌊u⌋₊ with heven | hodd
    · refine ⟨⌊u⌋₊, by linarith, hhalf.le, fun h1 => ?_⟩
      rw [Nat.even_iff] at heven
      omega
    · refine ⟨⌊u⌋₊ + 1, ?_, ?_, fun h1 => ?_⟩
      · push_cast
        linarith
      · push_cast
        linarith
      · rw [Nat.odd_iff] at hodd
        omega
  · refine ⟨⌊u⌋₊ + 1, ?_, ?_, fun _ => ⟨?_, ?_⟩⟩ <;> push_cast <;> linarith

theorem near_of_roundsTo {m : Nat} {q : Int} {u : ℚ} (h : RoundsTo u m) (hu : 2 ^ 52 ≤ u) :
    Near m q u := by
  have hreach : (m : ℚ) - reachBelow m q ≤ u := by
    rw [reachBelow]
    split
    · rename_i hm
      rw [hm.1]
      push_cast
      linarith
    · exact h.ge
  refine ⟨hreach, h.le, fun hodd => ⟨?_, (h.odd hodd).2⟩⟩
  rw [reachBelow, if_neg (fun hm => by omega)]
  exact (h.odd hodd).1

/-- A significand that is rounded to a new bit is half of it, one exponent up. -/
theorem near_carry {q : Int} {u : ℚ} (hq : -1074 < q + 1) (hu : u < 2 ^ 53)
    (h : RoundsTo u (2 ^ 53)) : Near (2 ^ 52) (q + 1) (u / 2) := by
  have hge := h.ge
  push_cast at hge
  refine ⟨?_, ?_, fun hodd => absurd hodd (by decide)⟩
  · rw [reachBelow, if_pos ⟨rfl, hq⟩]
    push_cast
    linarith
  · push_cast
    linarith

/-! ## Rounding to a double -/

/-- A number is near a canonical number with all 53 bits. From one on every number below the
limit is, and then the double that it is rounded to is known without any word about the rounding
itself. -/
structure Rounded (v : ℚ) (m : Nat) (q : Int) : Prop where
  canonical : Canonical m q
  full : 2 ^ 52 ≤ m
  near : Near m q (v / 2 ^ q)

theorem exists_rounded_normal {v : ℚ} (hlow : 2 ^ (-1022 : Int) ≤ v) (hhigh : v < overflowLimit) :
    ∃ (m : Nat) (q : Int), Rounded v m q := by
  have hlog := Int.zpow_log_le_self (b := 2) (by decide) ((zpow_two_pos (-1022)).trans_le hlow)
  have hlog' := Int.lt_zpow_succ_log_self (b := 2) (by decide) v
  push_cast at hlog hlog'
  generalize Int.log 2 v = a at hlog hlog'
  have ha : -1022 < a + 1 := lt_of_zpow_lt (lt_of_le_of_lt hlow hlog')
  have ha' : a < 1024 := lt_of_zpow_lt (lt_of_le_of_lt hlog (hhigh.trans overflowLimit_lt))
  have hpos := zpow_two_pos (a - 52)
  have hulow : 2 ^ 52 ≤ v / 2 ^ (a - 52) := by
    rw [le_div_iff₀ hpos, ← zpow_two_add]
    refine le_trans (le_of_eq ?_) hlog
    congr 1
    omega
  have huhigh : v / 2 ^ (a - 52) < 2 ^ 53 := by
    rw [div_lt_iff₀ hpos, ← zpow_two_add]
    refine lt_of_lt_of_eq hlog' ?_
    congr 1
    omega
  obtain ⟨m, hm⟩ := exists_roundsTo (u := v / 2 ^ (a - 52)) (by linarith)
  have hmlow : 2 ^ 52 ≤ m := by
    have hlt : (2 : ℚ) ^ 52 < m + 1 := by linarith [hm.le]
    exact Nat.lt_succ_iff.mp (by exact_mod_cast hlt)
  have hmhigh : m ≤ 2 ^ 53 := by
    have hlt : (m : ℚ) < 2 ^ 53 + 1 := by linarith [hm.ge]
    exact Nat.lt_succ_iff.mp (by exact_mod_cast hlt)
  rcases Nat.lt_or_eq_of_le hmhigh with hlt | rfl
  · exact ⟨m, a - 52, ⟨by omega, hlt, by omega, by omega, Or.inl hmlow⟩, hmlow,
      near_of_roundsTo hm hulow⟩
  · have hnext : a - 52 + 1 ≤ 971 := by
      by_contra hgt
      have hexp : a - 52 = 971 := by omega
      have hge := hm.ge
      rw [hexp, le_div_iff₀ (zpow_two_pos 971), Nat.cast_pow, Nat.cast_ofNat] at hge
      exact absurd hhigh (not_lt.mpr hge)
    have hhalf : v / 2 ^ (a - 52 + 1) = v / 2 ^ (a - 52) / 2 := by
      rw [zpow_add_one₀ (by norm_num), div_div]
    refine ⟨2 ^ 52, a - 52 + 1, ⟨by decide, by decide, by omega, hnext, Or.inl le_rfl⟩, le_rfl, ?_⟩
    rw [hhalf]
    exact near_carry (by omega) huhigh hm

theorem exists_rounded {v : ℚ} (hlow : 1 ≤ v) (hhigh : v < overflowLimit) :
    ∃ (m : Nat) (q : Int), Rounded v m q :=
  exists_rounded_normal (le_trans (zpow_le_one_of_nonpos₀ (by norm_num) (by decide)) hlow) hhigh

theorem eq_units (v : ℚ) (q : Int) : v = v / 2 ^ q * 2 ^ q :=
  (div_mul_cancel₀ v (zpow_two_pos q).ne').symm

section Rounded

variable {v : ℚ} {m : Nat} {q : Int} (h : Rounded v m q)
include h

/-- Rounding raises a number by at most half a unit in the last place. -/
theorem Rounded.le_add : (m * 2 ^ q : ℚ) ≤ v + 2 ^ q / 2 := by
  have hpos := zpow_two_pos q
  have hunits := eq_units v q
  have hreach := reachBelow_le m q
  have hle : (m : ℚ) * 2 ^ q ≤ (v / 2 ^ q + 1 / 2) * 2 ^ q :=
    mul_le_mul_of_nonneg_right (by linarith [h.near.ge]) hpos.le
  linarith

/-- A number that rounds to 53 bits has about as many units itself. -/
theorem Rounded.full_le : (2 ^ 52 - 1 / 2) * 2 ^ q ≤ v := by
  have hfull : (2 : ℚ) ^ 52 ≤ m := by exact_mod_cast h.full
  have hreach := reachBelow_le m q
  rw [← le_div_iff₀ (zpow_two_pos q)]
  linarith [h.near.ge]

/-- Rounding raises a number by at most one part in `2 ^ 52`. -/
theorem Rounded.le_mul : (m * 2 ^ q : ℚ) ≤ v * (1 + 1 / 2 ^ 52) := by
  have hpos := zpow_two_pos q
  linarith [h.le_add, h.full_le]

/-- Rounding does not lead below one. -/
theorem Rounded.one_le (hv : 1 ≤ v) : 1 ≤ (m * 2 ^ q : ℚ) := by
  have hpos := zpow_two_pos q
  have hm : (m : ℚ) + 1 ≤ 2 ^ 53 := by exact_mod_cast h.canonical.lt
  have hle : v ≤ (m + 1 / 2) * 2 ^ q := by
    rw [← div_le_iff₀ hpos]
    exact h.near.le
  have hq : 0 < 53 + q := by
    refine lt_of_zpow_lt ?_
    rw [zpow_zero]
    calc (1 : ℚ) ≤ (m + 1 / 2) * 2 ^ q := hv.trans hle
      _ < 2 ^ 53 * 2 ^ q := mul_lt_mul_of_pos_right (by linarith) hpos
      _ = 2 ^ (53 + q) := (zpow_two_add 53 q).symm
  have hfull : (2 : ℚ) ^ 52 ≤ m := by exact_mod_cast h.full
  calc (1 : ℚ) ≤ 2 ^ (52 + q) := one_le_zpow₀ (by norm_num) (by omega)
    _ = 2 ^ 52 * 2 ^ q := zpow_two_add 52 q
    _ ≤ m * 2 ^ q := mul_le_mul_of_nonneg_right hfull hpos.le

end Rounded

/-! ## Doubles -/

theorem isInf_ofCanonical {m : Nat} {q : Int} {s : Sign} (h : Canonical m q) :
    (ofCanonical s h).isInf = false := by
  have hinf : (ofCanonical s h).isInf = (Float.Model.pack (.finite s m q h.pos)).unpack.isInf := rfl
  rw [hinf, unpack_pack h]
  rfl

theorem isFinite_ofCanonical {m : Nat} {q : Int} {s : Sign} (h : Canonical m q) :
    (ofCanonical s h).isFinite = true := by
  have hfinite : (ofCanonical s h).isFinite
      = (Float.Model.pack (.finite s m q h.pos)).unpack.isFinite := rfl
  rw [hfinite, unpack_pack h]
  rfl

/-- A product of doubles is finite when it is below the limit. -/
theorem isInf_mul {m₁ m₂ : Nat} {q₁ q₂ : Int} {v₁ v₂ : ℚ} (h₁ : Rounded v₁ m₁ q₁)
    (h₂ : Rounded v₂ m₂ q₂) (hv₁ : 1 ≤ v₁) (hv₂ : 1 ≤ v₂)
    (hhigh : (m₁ * 2 ^ q₁ : ℚ) * (m₂ * 2 ^ q₂) < overflowLimit) :
    (ofCanonical .positive h₁.canonical * ofCanonical .positive h₂.canonical).isInf = false := by
  have hlow := one_le_mul_of_one_le_of_one_le (h₁.one_le hv₁) (h₂.one_le hv₂)
  obtain ⟨m, q, h⟩ := exists_rounded hlow hhigh
  have hbits : 2 ^ 52 ≤ m₁ * m₂ :=
    le_trans h₁.full (Nat.le_mul_of_pos_right m₁ h₂.canonical.pos)
  rw [ofCanonical_mul, mul_eq h₁.canonical.pos h₂.canonical.pos h.canonical h.near hbits
    (eq_units _ q)]
  exact isInf_ofCanonical (s := .positive) h.canonical

/-- A decimal below the limit is read as the double that it rounds to. -/
theorem ofScientific_rounded {D E m : Nat} {q : Int} (hD : 0 < D) (hE : E ≤ 2048)
    (h : Rounded (D * 10 ^ E) m q) :
    Float.ofScientific D false E = ofCanonical .positive h.canonical := by
  have hval : (D : ℚ) * 10 ^ (E : Int) = (D * 10 ^ E / 2 ^ q) * 2 ^ q := by
    rw [zpow_natCast]
    exact eq_units _ q
  have heq := ofScientific_eq hD h.canonical h.near hval (by omega) (by omega)
  rwa [Int.natAbs_natCast, decide_eq_false (by omega)] at heq

end Darkroom.Decimal
