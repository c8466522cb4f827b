import Darkroom.Decimal.Shortest
import Darkroom.Proofs.Decimal.Rounding

/-!
# The shortest digits are near

The text of a double is found by a search. Whatever the search does, what it accepts has been compared
exactly with the points halfway to the neighbours, and should it accept nothing the exact value is
taken. So the digits are always near the double that they are the text of (`near_shortest`).
-/

namespace Darkroom.Decimal

def Scaled.value (d : Scaled) : ℚ :=
  d.digits * 10 ^ d.exp

/-! ## Comparing -/

/-- Comparing two products of natural numbers compares the two numbers. -/
theorem compareScaled_eq (a : Nat) (i : Int) (n : Nat) (j : Int) :
    compareScaled a i n j = compare ((a : ℚ) * 10 ^ i) (n * 2 ^ j) := by
  have hpow : ∀ k, Nat.pow 10 k = 10 ^ k := fun k => rfl
  have hscale : (0 : ℚ) < 10 ^ (-i).toNat * 2 ^ (-j).toNat := by positivity
  have hleft : ((a * Nat.pow 10 i.toNat) <<< (-j).toNat : Nat)
      = (a : ℚ) * 10 ^ i * (10 ^ (-i).toNat * 2 ^ (-j).toNat) := by
    rw [zpow_eq_div (by norm_num) i, Nat.shiftLeft_eq, hpow]
    push_cast
    field_simp
  have hright : ((n <<< j.toNat) * Nat.pow 10 (-i).toNat : Nat)
      = (n : ℚ) * 2 ^ j * (10 ^ (-i).toNat * 2 ^ (-j).toNat) := by
    rw [zpow_eq_div (by norm_num) j, Nat.shiftLeft_eq, hpow]
    push_cast
    field_simp
  rw [compareScaled]
  rcases lt_trichotomy ((a : ℚ) * 10 ^ i) (n * 2 ^ j) with h | h | h
  · have hnat := mul_lt_mul_of_pos_right h hscale
    rw [← hleft, ← hright] at hnat
    rw [compare_lt_iff_lt.mpr h, Nat.compare_eq_lt]
    exact_mod_cast hnat
  · have hnat := congrArg (· * ((10 : ℚ) ^ (-i).toNat * 2 ^ (-j).toNat)) h
    rw [← hleft, ← hright] at hnat
    rw [compare_eq_iff_eq.mpr h, Nat.compare_eq_eq]
    exact_mod_cast hnat
  · have hnat := mul_lt_mul_of_pos_right h hscale
    rw [← hleft, ← hright] at hnat
    rw [compare_gt_iff_gt.mpr h, Nat.compare_eq_gt]
    exact_mod_cast hnat

/-! ## Reading back -/

section Accepted

variable {x : Binary} (hc : Canonical x.m x.q)
  (hnarrow : x.narrowBelow ↔ x.m = 2 ^ 52 ∧ -1074 < x.q)
include hc hnarrow

/-- The comparisons of the search, in units of the last place. -/
theorem readsBack_iff (d : Scaled) : x.readsBack d = true ↔
    (x.m - reachBelow x.m x.q < d.value / 2 ^ x.q
        ∨ x.m % 2 = 0 ∧ d.value / 2 ^ x.q = x.m - reachBelow x.m x.q)
      ∧ (d.value / 2 ^ x.q < x.m + 1 / 2
        ∨ x.m % 2 = 0 ∧ d.value / 2 ^ x.q = x.m + 1 / 2) := by
  have hpos := zpow_two_pos x.q
  have hm := hc.pos
  have hquarter : (2 : ℚ) ^ (x.q - 2) = 1 / 4 * 2 ^ x.q := by
    rw [zpow_sub₀ (by norm_num)]
    norm_num
    ring
  have hlow : ((if x.narrowBelow then 4 * x.m - 1 else 4 * x.m - 2 : Nat) : ℚ) * 2 ^ (x.q - 2)
      = (x.m - reachBelow x.m x.q) * 2 ^ x.q := by
    rw [hquarter, reachBelow]
    split
    · rename_i hn
      rw [if_pos (hnarrow.mp hn), Nat.cast_sub (by omega)]
      push_cast
      ring
    · rename_i hn
      rw [if_neg (fun h => hn (hnarrow.mpr h)), Nat.cast_sub (by omega)]
      push_cast
      ring
  have hhigh : ((4 * x.m + 2 : Nat) : ℚ) * 2 ^ (x.q - 2) = (x.m + 1 / 2) * 2 ^ x.q := by
    rw [hquarter]
    push_cast
    ring
  have hvalue : (d.digits : ℚ) * 10 ^ d.exp = d.value / 2 ^ x.q * 2 ^ x.q := by
    rw [div_mul_cancel₀ _ hpos.ne', Scaled.value]
  have hlt : ∀ s t : ℚ, s * 2 ^ x.q < t * 2 ^ x.q ↔ s < t := fun s t =>
    mul_lt_mul_iff_of_pos_right hpos
  have heq : ∀ s t : ℚ, s * 2 ^ x.q = t * 2 ^ x.q ↔ s = t := fun s t => mul_left_inj' hpos.ne'
  unfold Binary.readsBack
  simp only [compareScaled_eq, hlow, hhigh, hvalue, Bool.and_eq_true, Bool.or_eq_true,
    beq_iff_eq, compare_gt_iff_gt, compare_lt_iff_lt, compare_eq_iff_eq, hlt, heq]

/-- What the search accepts is near. -/
theorem near_of_readsBack {d : Scaled} (h : x.readsBack d = true) :
    Near x.m x.q (d.value / 2 ^ x.q) := by
  obtain ⟨hbelow, habove⟩ := (readsBack_iff hc hnarrow d).mp h
  refine ⟨?_, ?_, fun hodd => ⟨?_, ?_⟩⟩
  · exact hbelow.elim le_of_lt fun h => h.2.ge
  · exact habove.elim le_of_lt fun h => h.2.le
  · exact hbelow.resolve_right fun h => by omega
  · exact habove.resolve_right fun h => by omega

end Accepted

theorem readsBack_of_onGrid? {tie : Tie} {x : Binary} {e : Int} {d : Scaled}
    (h : x.onGrid? tie e = some d) : x.readsBack d = true := by
  unfold Binary.onGrid? at h
  simp only at h
  split at h
  · cases h
  · rename_i hbelow _
    cases h
    exact hbelow
  · rename_i _ habove
    cases h
    exact habove
  · rename_i hbelow habove
    split at h
    · cases h
      exact hbelow
    · cases h
      exact habove
    · cases h
      exact habove
    · cases h
      split
      · exact hbelow
      · exact habove

/-! ## The search -/

theorem value_strip (d : Scaled) : d.strip.value = d.value := by
  fun_induction Scaled.strip d with
  | case1 d h ih =>
      have hten : (d.digits : ℚ) = (d.digits / 10 : Nat) * 10 := by
        exact_mod_cast (by omega : d.digits = d.digits / 10 * 10)
      rw [ih, Scaled.value, Scaled.value, zpow_add_one₀ (by norm_num), hten]
      ring
  | case2 d h => rfl

theorem value_exact (x : Binary) : x.exact.value = x.m * 2 ^ x.q := by
  rw [Binary.exact, Scaled.value]
  split
  · rename_i hq
    have hten : (10 : ℚ) ^ x.q = 5 ^ x.q * 2 ^ x.q := by
      rw [← mul_zpow]
      norm_num
    have hfive : (5 : ℚ) ^ (-x.q).toNat * 5 ^ x.q = 1 := by
      rw [← zpow_natCast, Int.toNat_of_nonneg (by omega), ← zpow_add₀ (by norm_num),
        neg_add_cancel, zpow_zero]
    have hpow : Nat.pow 5 (-x.q).toNat = 5 ^ (-x.q).toNat := rfl
    rw [hten, hpow, Nat.cast_mul, Nat.cast_pow, Nat.cast_ofNat, mul_assoc, ← mul_assoc _ _ (2 ^ x.q),
      hfive, one_mul]
  · rename_i hq
    have htwo : (2 : ℚ) ^ x.q = 2 ^ x.q.toNat := by
      rw [← zpow_natCast, Int.toNat_of_nonneg (by omega)]
    rw [zpow_zero, mul_one, Nat.shiftLeft_eq, Nat.cast_mul, Nat.cast_pow, Nat.cast_ofNat, htwo]

/-- The digits of a double are near the double. -/
theorem near_shortest {x : Binary} (hc : Canonical x.m x.q)
    (hnarrow : x.narrowBelow ↔ x.m = 2 ^ 52 ∧ -1074 < x.q) (tie : Tie) :
    Near x.m x.q ((x.shortest tie).value / 2 ^ x.q) := by
  have hpos := zpow_two_pos x.q
  rw [Binary.shortest, if_neg hc.pos.ne']
  simp only
  rw [value_strip]
  cases hfound : (List.range 17).findSome? fun (n : Nat) => x.onGrid? tie (x.scale - 1 - n) with
  | none =>
      rw [Option.getD_none, value_exact, mul_div_cancel_right₀ _ hpos.ne']
      exact near_self x.m x.q
  | some d =>
      obtain ⟨n, -, hn⟩ := List.exists_of_findSome?_eq_some hfound
      exact near_of_readsBack hc hnarrow (readsBack_of_onGrid? hn)

/-- Zero is near no double above it. -/
theorem digits_pos {x : Binary} (hc : Canonical x.m x.q)
    (hnarrow : x.narrowBelow ↔ x.m = 2 ^ 52 ∧ -1074 < x.q) (tie : Tie) :
    0 < (x.shortest tie).digits := by
  rw [Nat.pos_iff_ne_zero]
  intro hzero
  have hpos := (near_shortest hc hnarrow tie).pos hc.pos
  rw [Scaled.value, hzero, Nat.cast_zero, zero_mul, zero_div] at hpos
  exact hpos.false

end Darkroom.Decimal
