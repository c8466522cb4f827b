import Darkroom.Proofs.Decimal.Packed
import Mathlib.Algebra.Order.Field.Power
import Mathlib.Algebra.Order.Field.Rat
import Mathlib.Tactic.FieldSimp
import Mathlib.Tactic.Linarith
import Mathlib.Tactic.Positivity
import Mathlib.Tactic.Ring

/-!
# Rounding to a canonical number

The arithmetic of doubles works on a significand with two more bits, which say where the exact value
lies between the significand and the next one (`Locates`). Dropping bits keeps that knowledge, so
rounding at the end is rounding of the exact value. The main result is that a value near a canonical
number is rounded to it (`roundWithAccuracy_eq`), also where the gap below the number is smaller than
the one above: there the first rounding is done at the smaller exponent and carries into a new bit.
-/

namespace Darkroom.Decimal

open Float.Model (Format UnpackedFloat totalExponent)
open Float.Model.UnpackedFloat

/-! ## Two more bits -/

/-- The exact value `r` lies where the bits behind the significand say. A rounding sees no more of a
value than these two bits, so that is what an operation has to provide for it. -/
def Locates (em : ExtendedMantissa) (r : ℚ) : Prop :=
  match em.roundBit, em.stickyBit with
  | false, false => r = em.mantissa
  | false, true => em.mantissa < r ∧ r < em.mantissa + 1 / 2
  | true, false => r = em.mantissa + 1 / 2
  | true, true => em.mantissa + 1 / 2 < r ∧ r < em.mantissa + 1

theorem Locates.ge {em : ExtendedMantissa} {r : ℚ} (h : Locates em r) : (em.mantissa : ℚ) ≤ r := by
  obtain ⟨m, roundBit, stickyBit⟩ := em
  cases roundBit <;> cases stickyBit <;> simp only [Locates] at h ⊢ <;> linarith

theorem Locates.lt {em : ExtendedMantissa} {r : ℚ} (h : Locates em r) : r < em.mantissa + 1 := by
  obtain ⟨m, roundBit, stickyBit⟩ := em
  cases roundBit <;> cases stickyBit <;> simp only [Locates] at h ⊢ <;> linarith

theorem shiftRightOne_even (k : Nat) (roundBit stickyBit : Bool) :
    ExtendedMantissa.shiftRightOne ⟨2 * k, roundBit, stickyBit⟩
      = ⟨k, false, roundBit || stickyBit⟩ := by
  simp [ExtendedMantissa.shiftRightOne]

theorem shiftRightOne_odd (k : Nat) (roundBit stickyBit : Bool) :
    ExtendedMantissa.shiftRightOne ⟨2 * k + 1, roundBit, stickyBit⟩
      = ⟨k, true, roundBit || stickyBit⟩ := by
  have hk : (2 * k + 1) / 2 = k := by omega
  simp [ExtendedMantissa.shiftRightOne, hk]

theorem Locates.half {em : ExtendedMantissa} {r : ℚ} (h : Locates em r) :
    Locates em.shiftRightOne (r / 2) := by
  obtain ⟨m, roundBit, stickyBit⟩ := em
  obtain ⟨k, rfl | rfl⟩ := Nat.even_or_odd' m
  · rw [shiftRightOne_even]
    cases roundBit <;> cases stickyBit <;>
      simp only [Locates, Bool.or_false, Bool.or_true, Nat.cast_mul, Nat.cast_ofNat] at h ⊢ <;>
      first | linarith | exact ⟨by linarith, by linarith⟩
  · rw [shiftRightOne_odd]
    cases roundBit <;> cases stickyBit <;>
      simp only [Locates, Bool.or_false, Bool.or_true, Nat.cast_add, Nat.cast_mul, Nat.cast_ofNat,
        Nat.cast_one] at h ⊢ <;>
      first | linarith | exact ⟨by linarith, by linarith⟩

theorem Locates.shiftRight {em : ExtendedMantissa} {r : ℚ} (h : Locates em r) :
    ∀ n : Nat, Locates (em >>> n) (r / 2 ^ n)
  | 0 => by
      rw [pow_zero, div_one]
      exact h
  | n + 1 => by
      rw [pow_succ, ← div_div]
      exact (h.shiftRight n).half

/-- `m` is a nearest natural number to `r`, and the even one of two. It is stated by inequalities,
as both sides of the rounding come from such bounds. -/
structure RoundsTo (r : ℚ) (m : Nat) : Prop where
  ge : (m : ℚ) - 1 / 2 ≤ r
  le : r ≤ m + 1 / 2
  odd : m % 2 = 1 → (m : ℚ) - 1 / 2 < r ∧ r < m + 1 / 2

theorem Locates.roundedMantissa_eq {em : ExtendedMantissa} {r : ℚ} {m : Nat} (h : Locates em r)
    (hm : RoundsTo r m) : em.roundedMantissa = m := by
  have hlow : em.mantissa ≤ m := by
    have hlt : (em.mantissa : ℚ) < m + 1 := by linarith [h.ge, hm.le]
    exact Nat.lt_succ_iff.mp (by exact_mod_cast hlt)
  have hhigh : m ≤ em.mantissa + 1 := by
    have hlt : (m : ℚ) < em.mantissa + 2 := by linarith [h.lt, hm.ge]
    exact Nat.lt_succ_iff.mp (by exact_mod_cast hlt)
  obtain ⟨hge, hle, hodd⟩ := hm
  obtain ⟨k, roundBit, stickyBit⟩ := em
  simp only at hlow hhigh
  have hcases : m = k ∨ m = k + 1 := by omega
  cases roundBit <;> cases stickyBit <;>
    simp only [Locates, ExtendedMantissa.roundedMantissa, ExtendedMantissa.accuracy,
      Accuracy.roundToNearestEven] at h ⊢
  · rcases hcases with rfl | rfl
    · rfl
    · push_cast at hge
      linarith
  · rcases hcases with rfl | rfl
    · rfl
    · push_cast at hge
      linarith
  · rcases hcases with rfl | rfl
    · -- Halfway, so the even one of the two is `m`.
      have heven : m % 2 ≠ 1 := fun h1 => by linarith [(hodd h1).2]
      omega
    · have heven : (k + 1) % 2 ≠ 1 := fun h1 => by
        have hlt := (hodd h1).1
        push_cast at hlt
        linarith
      omega
  · rcases hcases with rfl | rfl
    · linarith
    · rfl

/-! ## Values near a canonical number -/

/-- How far down from `m * 2 ^ q` the values reach that round to it, in units of `2 ^ q`. Below a
power of two doubles lie twice as dense, except at the least exponent. -/
def reachBelow (m : Nat) (q : Int) : ℚ :=
  if m = 2 ^ 52 ∧ -1074 < q then 1 / 4 else 1 / 2

/-- The value `u * 2 ^ q` rounds to `m * 2 ^ q`: it is not beyond the points halfway to the
neighbours, and on none of them if `m` is odd. Digits are chosen so that their value is near the
number that is written, and whatever is near it is read as it. -/
structure Near (m : Nat) (q : Int) (u : ℚ) : Prop where
  ge : m - reachBelow m q ≤ u
  le : u ≤ m + 1 / 2
  odd : m % 2 = 1 → m - reachBelow m q < u ∧ u < m + 1 / 2

theorem reachBelow_le (m : Nat) (q : Int) : reachBelow m q ≤ 1 / 2 := by
  rw [reachBelow]
  split <;> norm_num

theorem Near.roundsTo {m : Nat} {q : Int} {u : ℚ} (h : Near m q u) : RoundsTo u m := by
  have hreach := reachBelow_le m q
  exact ⟨by linarith [h.ge], h.le, fun hodd => ⟨by linarith [(h.odd hodd).1], (h.odd hodd).2⟩⟩

/-- What is near a number above zero is above zero. -/
theorem Near.pos {m : Nat} {q : Int} {u : ℚ} (h : Near m q u) (hm : 0 < m) : 0 < u := by
  have hm : (1 : ℚ) ≤ m := by exact_mod_cast hm
  linarith [h.ge, reachBelow_le m q]

/-- A canonical number is near to itself. -/
theorem near_self (m : Nat) (q : Int) : Near m q m := by
  have hreach : 0 < reachBelow m q := by
    rw [reachBelow]
    split <;> norm_num
  exact ⟨by linarith, by linarith, fun _ => ⟨by linarith, by linarith⟩⟩

/-- Powers of two compare as their exponents do. -/
theorem lt_of_zpow_lt {a b : Int} (h : (2 : ℚ) ^ a < 2 ^ b) : a < b :=
  (zpow_lt_zpow_iff_right₀ (by norm_num)).mp h

theorem zpow_two_pos (a : Int) : (0 : ℚ) < 2 ^ a :=
  zpow_pos (by norm_num) a

theorem zpow_two_add (n : Nat) (q : Int) : (2 : ℚ) ^ (n + q) = 2 ^ n * 2 ^ q := by
  rw [zpow_add₀ (by norm_num), zpow_natCast]

/-- A power with an integer exponent, as a quotient of two with natural ones. -/
theorem zpow_eq_div {b : ℚ} (hb : b ≠ 0) (q : Int) : b ^ q = b ^ q.toNat / b ^ (-q).toNat := by
  rw [← zpow_natCast, ← zpow_natCast, ← zpow_sub₀ hb]
  congr 1
  omega

/-- The exponent at which a value near a canonical number is rounded is the exponent of the number,
unless the value lies below a power of two: then it is the next smaller one. Here `a` is the binary
logarithm of the value, or some exponent below those of all doubles if the value is very small. -/
theorem targetExponent_of_near {m : Nat} {q a : Int} {u : ℚ} (hc : Canonical m q) (hu : Near m q u)
    (hlt : u * 2 ^ q < 2 ^ (a + 1)) (hge : (2 : ℚ) ^ a ≤ u * 2 ^ q ∨ a ≤ -1074) :
    Format.binary64.targetExponent (a + 1) = q
      ∨ (m = 2 ^ 52 ∧ -1074 < q ∧ u < 2 ^ 52 ∧ Format.binary64.targetExponent (a + 1) = q - 1) := by
  have htarget : Format.binary64.targetExponent (a + 1) = max (a + 1 - 53) (-1074) := rfl
  have hm : (m : ℚ) + 1 ≤ 2 ^ 53 := by exact_mod_cast hc.lt
  have hpos := zpow_two_pos q
  have hupper : a < 53 + q ∨ a ≤ -1074 := by
    refine hge.imp (fun hge => lt_of_zpow_lt ?_) id
    have huq : u * 2 ^ q < 2 ^ 53 * 2 ^ q :=
      mul_lt_mul_of_pos_right (by linarith [hu.le]) hpos
    exact lt_of_le_of_lt hge (huq.trans_eq (zpow_two_add 53 q).symm)
  have hlow := hc.low
  by_cases hq : q = -1074
  · left
    omega
  have hfull : 2 ^ 52 ≤ m := hc.full.resolve_right hq
  have hmge : (2 : ℚ) ^ 52 ≤ m := by exact_mod_cast hfull
  have hreach := reachBelow_le m q
  rcases lt_or_ge u (2 ^ 52) with husmall | hularge
  · right
    have hmeq : m = 2 ^ 52 := by
      by_contra hne
      have hmgt : (2 : ℚ) ^ 52 + 1 ≤ m := by exact_mod_cast (by omega : 2 ^ 52 + 1 ≤ m)
      linarith [hu.ge]
    have hlower : 51 + q < a + 1 := by
      refine lt_of_zpow_lt (lt_of_le_of_lt ?_ hlt)
      have huq : (2 : ℚ) ^ 51 * 2 ^ q ≤ u * 2 ^ q :=
        mul_le_mul_of_nonneg_right (by linarith [hu.ge]) hpos.le
      exact (zpow_two_add 51 q).trans_le huq
    have hupper : a < 52 + q := by
      refine lt_of_zpow_lt (lt_of_le_of_lt (hge.resolve_right (by omega)) ?_)
      have huq : u * 2 ^ q < 2 ^ 52 * 2 ^ q := mul_lt_mul_of_pos_right husmall hpos
      exact huq.trans_eq (zpow_two_add 52 q).symm
    refine ⟨hmeq, by omega, husmall, ?_⟩
    omega
  · left
    have hlower : 52 + q < a + 1 := by
      refine lt_of_zpow_lt (lt_of_le_of_lt ?_ hlt)
      have huq : (2 : ℚ) ^ 52 * 2 ^ q ≤ u * 2 ^ q := mul_le_mul_of_nonneg_right hularge hpos.le
      exact (zpow_two_add 52 q).trans_le huq
    omega

/-! ## Rounding -/

theorem shiftToTargetExponent_eq (m : Nat) (e : Int) (acc : Accuracy) :
    shiftToTargetExponent .binary64 m e acc
      = (ExtendedMantissa.ofMantissaAndAccuracy m acc
          >>> (Format.binary64.targetExponent (totalExponent m e) - e).toNat,
        e + (Format.binary64.targetExponent (totalExponent m e) - e).toNat) :=
  rfl

theorem targetExponent_canonical {m : Nat} {q : Int} (hc : Canonical m q) :
    Format.binary64.targetExponent (totalExponent m q) = q := by
  have hmax : Format.binary64.targetExponent (totalExponent m q)
      = max (m.log2 + 1 + q - 53) (-1074) := rfl
  have hlow := hc.low
  rcases Nat.lt_or_ge m (2 ^ 52) with hsmall | hfull
  · have hlog := log2_lt_of_lt hc.pos hsmall
    have hq : q = -1074 := hc.full.resolve_left (by omega)
    omega
  · have hlog := log2_eq_of_full hfull hc.lt
    omega

/-- A canonical number is not shifted. -/
theorem shift_canonical {m : Nat} {q : Int} (hc : Canonical m q) :
    shiftToTargetExponent .binary64 m q .exact = (⟨m, false, false⟩, q) := by
  rw [shiftToTargetExponent_eq, targetExponent_canonical hc, Int.sub_self]
  exact Prod.ext rfl (Int.add_zero q)

/-- A significand that rounding has carried into a new bit is shifted by one. -/
theorem shift_carry {q : Int} (hq : -1074 < q) :
    shiftToTargetExponent .binary64 (2 ^ 53) (q - 1) .exact = (⟨2 ^ 52, false, false⟩, q) := by
  have hlog : (2 ^ 53 : Nat).log2 = 53 := Nat.log2_two_pow
  have hamount : (Format.binary64.targetExponent (totalExponent (2 ^ 53) (q - 1)) - (q - 1)).toNat
      = 1 := by
    have hmax : Format.binary64.targetExponent (totalExponent (2 ^ 53) (q - 1))
        = max ((2 ^ 53 : Nat).log2 + 1 + (q - 1) - 53) (-1074) := rfl
    omega
  rw [shiftToTargetExponent_eq, hamount]
  exact Prod.ext rfl (by simp)

theorem mantissa_ofMantissaAndAccuracy (m : Nat) (acc : Accuracy) :
    (ExtendedMantissa.ofMantissaAndAccuracy m acc).mantissa = m := by
  cases acc with
  | exact => rfl
  | inexact o => cases o <;> rfl

section Nearby

variable {m' m : Nat} {e' q : Int} {acc : Accuracy} {u w : ℚ} (hc : Canonical m q)
  (hu : Near m q u) (hw : Locates (ExtendedMantissa.ofMantissaAndAccuracy m' acc) w)
  (hval : w * 2 ^ e' = u * 2 ^ q)
  (he : e' ≤ Format.binary64.targetExponent (totalExponent m' e'))
include hw hval he

/-- The value in units of the exponent at which it is rounded. -/
theorem locates_shift {t : Int} (ht : Format.binary64.targetExponent (totalExponent m' e') = t) :
    ∃ em, shiftToTargetExponent .binary64 m' e' acc = (em, t) ∧ Locates em (u * 2 ^ (q - t)) := by
  rw [shiftToTargetExponent_eq, ht]
  rw [ht] at he
  have hn : e' + (t - e').toNat = t := by omega
  refine ⟨_, Prod.ext rfl hn, ?_⟩
  have hshift := hw.shiftRight (t - e').toNat
  have hunits : w / 2 ^ (t - e').toNat = u * 2 ^ (q - t) := by
    have hpow : (2 : ℚ) ^ (t - e').toNat * 2 ^ e' = 2 ^ t := by
      rw [← zpow_two_add, Int.add_comm, hn]
    rw [div_eq_iff (by positivity), zpow_sub₀ (by norm_num), ← hpow]
    field_simp
    exact hval
  rwa [hunits] at hshift

include hc hu

theorem targetExponent_of_value :
    Format.binary64.targetExponent (totalExponent m' e') = q
      ∨ (m = 2 ^ 52 ∧ -1074 < q ∧ u < 2 ^ 52
        ∧ Format.binary64.targetExponent (totalExponent m' e') = q - 1) := by
  have htotal : totalExponent m' e' = (m'.log2 + e') + 1 := by
    rw [totalExponent, Int.add_right_comm]
  have hge := hw.ge
  have hlt := hw.lt
  rw [mantissa_ofMantissaAndAccuracy] at hge hlt
  have hpos := zpow_two_pos e'
  rw [htotal] at he ⊢
  refine targetExponent_of_near hc hu ?_ ?_
  · have hm : (m' : ℚ) + 1 ≤ 2 ^ (m'.log2 + 1) := by exact_mod_cast Nat.lt_log2_self
    have hpow : (2 : ℚ) ^ (m'.log2 + e' + 1) = 2 ^ (m'.log2 + 1) * 2 ^ e' := by
      rw [← zpow_two_add, Int.add_right_comm]
      rfl
    rw [← hval, hpow]
    exact mul_lt_mul_of_pos_right (by linarith) hpos
  · by_cases hm : m' = 0
    · right
      have hmax : Format.binary64.targetExponent (m'.log2 + e' + 1)
          = max (m'.log2 + e' + 1 - 53) (-1074) := rfl
      rw [hmax, hm, Nat.log2_zero] at he
      rw [hm, Nat.log2_zero]
      omega
    · left
      have hlog : (2 : ℚ) ^ m'.log2 ≤ m' := by exact_mod_cast Nat.log2_self_le hm
      rw [zpow_two_add, ← hval]
      exact mul_le_mul_of_nonneg_right (by linarith) hpos.le

/-- A value near a canonical number is rounded to it. -/
theorem roundWithAccuracy_eq (s : Sign) :
    roundWithAccuracy .binary64 s m' e' acc = .finite s m q hc.pos := by
  have hpos := hc.pos
  rcases targetExponent_of_value hc hu hw hval he with ht | ⟨hm, hq, husmall, ht⟩
  · obtain ⟨em, hshift, hem⟩ := locates_shift hw hval he ht
    rw [Int.sub_self, zpow_zero, mul_one] at hem
    have hround := hem.roundedMantissa_eq hu.roundsTo
    simp only [roundWithAccuracy, hshift, hround, shift_canonical hc]
    exact dif_neg hpos.ne'
  · obtain ⟨em, hshift, hem⟩ := locates_shift hw hval he ht
    have htwo : u * 2 ^ (q - (q - 1)) = u * 2 := by
      rw [sub_sub_cancel, zpow_one]
    have hcarry : RoundsTo (u * 2) (2 ^ 53) := by
      have hge := hu.ge
      rw [reachBelow, if_pos ⟨hm, hq⟩, hm] at hge
      push_cast at hge
      refine ⟨?_, ?_, fun hodd => absurd hodd (by decide)⟩
      · push_cast
        linarith
      · push_cast
        linarith
    rw [htwo] at hem
    have hround := hem.roundedMantissa_eq hcarry
    simp only [roundWithAccuracy, hshift, hround, shift_carry hq]
    subst hm
    exact dif_neg (by decide)

end Nearby

end Darkroom.Decimal
