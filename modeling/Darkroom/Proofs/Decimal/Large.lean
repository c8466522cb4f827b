import Darkroom.Proofs.Decimal.Overflow
import Darkroom.Proofs.Decimal.Shortest

/-!
# The digits of large doubles

A grid that is finer than the gap between two doubles holds a decimal that reads back
(`exists_onGrid?`). For doubles beyond `10 ^ 308` that is the case at `10 ^ 292` at the latest, so
they have at most 17 digits (`shortest_large`).
-/

namespace Darkroom.Decimal

/-! ## Grids -/

/-- A value lies between its two neighbours on a grid. -/
theorem floorOn_bounds (x : Binary) (e : Int) :
    (x.floorOn e : ℚ) * 10 ^ e ≤ x.m * 2 ^ x.q
      ∧ (x.m * 2 ^ x.q : ℚ) < (x.floorOn e + 1) * 10 ^ e := by
  have hten : (0 : ℚ) < 10 ^ e := zpow_pos (by norm_num) e
  have hpow : ∀ k, Nat.pow 10 k = 10 ^ k := fun k => rfl
  have hden : 0 < 10 ^ e.toNat * 2 ^ (-x.q).toNat := by positivity
  have hfloor : x.floorOn e = x.m * 2 ^ x.q.toNat * 10 ^ (-e).toNat
      / (10 ^ e.toNat * 2 ^ (-x.q).toNat) := by
    rw [Binary.floorOn, Nat.shiftLeft_eq, Nat.shiftLeft_eq, hpow, hpow]
  have hquotient : (x.m * 2 ^ x.q / 10 ^ e : ℚ)
      = ((x.m * 2 ^ x.q.toNat * 10 ^ (-e).toNat : Nat) : ℚ)
        / ((10 ^ e.toNat * 2 ^ (-x.q).toNat : Nat) : ℚ) := by
    rw [zpow_eq_div (by norm_num) x.q, zpow_eq_div (by norm_num) e]
    push_cast
    field_simp
  rw [← le_div_iff₀ hten, ← div_lt_iff₀ hten, hquotient, hfloor]
  refine ⟨Nat.cast_div_le, ?_⟩
  rw [div_lt_iff₀ (by exact_mod_cast hden)]
  exact_mod_cast Nat.lt_mul_of_div_lt (Nat.lt_succ_self _) hden

section Grid

variable {x : Binary} (hc : Canonical x.m x.q)
  (hnarrow : x.narrowBelow ↔ x.m = 2 ^ 52 ∧ -1074 < x.q)
include hc hnarrow

/-- On a fine grid one of the two neighbours reads back: otherwise the interval of the numbers that
round to the value would lie between them. -/
theorem readsBack_neighbour {e : Int} (hfine : (10 : ℚ) ^ e < 3 / 4 * 2 ^ x.q) :
    x.readsBack ⟨x.floorOn e, e⟩ = true ∨ x.readsBack ⟨x.floorOn e + 1, e⟩ = true := by
  have hpos := zpow_two_pos x.q
  obtain ⟨hbelow, habove⟩ := floorOn_bounds x e
  have hreach : 1 / 4 ≤ reachBelow x.m x.q := by
    rw [reachBelow]
    split <;> norm_num
  have hlow : (⟨x.floorOn e, e⟩ : Scaled).value / 2 ^ x.q ≤ x.m := by
    rw [div_le_iff₀ hpos]
    exact hbelow
  have hhigh : (x.m : ℚ) < (⟨x.floorOn e + 1, e⟩ : Scaled).value / 2 ^ x.q := by
    rw [lt_div_iff₀ hpos, Scaled.value]
    push_cast
    exact habove
  have hgap : (⟨x.floorOn e + 1, e⟩ : Scaled).value / 2 ^ x.q
      < (⟨x.floorOn e, e⟩ : Scaled).value / 2 ^ x.q + 3 / 4 := by
    rw [Scaled.value, Scaled.value, div_lt_iff₀ hpos, add_mul, div_mul_cancel₀ _ hpos.ne']
    push_cast
    linarith
  rw [readsBack_iff hc hnarrow, readsBack_iff hc hnarrow]
  by_cases hinside : x.m - reachBelow x.m x.q < (⟨x.floorOn e, e⟩ : Scaled).value / 2 ^ x.q
  · exact Or.inl ⟨Or.inl hinside, Or.inl (by linarith)⟩
  · exact Or.inr ⟨Or.inl (by linarith), Or.inl (by linarith)⟩

theorem exists_onGrid? {e : Int} (tie : Tie) (hfine : (10 : ℚ) ^ e < 3 / 4 * 2 ^ x.q) :
    ∃ d, x.onGrid? tie e = some d := by
  have hneighbour := readsBack_neighbour hc hnarrow hfine
  unfold Binary.onGrid?
  simp only
  split
  · rename_i hbelow habove
    rw [hbelow, habove] at hneighbour
    simp at hneighbour
  · exact ⟨_, rfl⟩
  · exact ⟨_, rfl⟩
  · split <;> exact ⟨_, rfl⟩

end Grid

theorem exp_of_onGrid? {tie : Tie} {x : Binary} {e : Int} {d : Scaled}
    (h : x.onGrid? tie e = some d) : d.exp = e := by
  unfold Binary.onGrid? at h
  simp only at h
  split at h
  · cases h
  · cases h; rfl
  · cases h; rfl
  · split at h
    · cases h; rfl
    · cases h; rfl
    · cases h; rfl
    · cases h
      split <;> rfl

theorem exp_le_strip (d : Scaled) : d.exp ≤ d.strip.exp := by
  fun_induction Scaled.strip d with
  | case1 d h ih => exact le_trans (by simp) ih
  | case2 d h => exact le_rfl

/-! ## Beyond `10 ^ 308` -/

theorem ten_pow_bounds :
    2 ^ 1023 < 10 ^ 308 ∧ 2 ^ 1024 < 10 ^ 309 ∧ 4 * 10 ^ 292 < 3 * 2 ^ 971 ∧
      17 * 10 ^ 307 * (2 ^ 52 + 1) ^ 2 < (2 ^ 54 - 1) * 2 ^ 970 * (2 ^ 52) ^ 2 := by
  decide +kernel

theorem overflowLimit_lt_ten_pow : overflowLimit < 10 ^ 309 := by
  have hpow : (2 : ℚ) ^ (1024 : Int) < 10 ^ 309 := by
    rw [zpow_ofNat]
    exact_mod_cast ten_pow_bounds.2.1
  exact overflowLimit_lt.trans hpow

section Large

variable {x : Binary} (hc : Canonical x.m x.q) (hlarge : (10 : ℚ) ^ 308 ≤ x.m * 2 ^ x.q)
include hc hlarge

theorem q_large : x.q = 971 := by
  have hm : (x.m : ℚ) < 2 ^ 53 := by exact_mod_cast hc.lt
  have hpow : (2 : ℚ) ^ (1023 : Int) < 10 ^ 308 := by
    rw [zpow_ofNat]
    exact_mod_cast ten_pow_bounds.1
  have hexp : 1023 < 53 + x.q := by
    refine lt_of_zpow_lt (lt_of_lt_of_eq ?_ (zpow_two_add 53 x.q).symm)
    exact (hpow.trans_le hlarge).trans (mul_lt_mul_of_pos_right hm (zpow_two_pos x.q))
  have hhigh := hc.high
  omega

theorem scale_large : x.scale = 309 := by
  have hq := q_large hc hlarge
  have hlog : x.m.log2 = 52 := log2_eq_of_full (hc.full.resolve_right (by omega)) hc.lt
  have hestimate : ((x.m.log2 : Int) + x.q) * 30103 / 100000 - 1 = 306 := by
    rw [hlog, hq]
    rfl
  have hcompare : ∀ i : Nat, (compareScaled 1 (306 + i) x.m x.q != .gt) = true
      ↔ (10 : ℚ) ^ (306 + i) ≤ x.m * 2 ^ x.q := by
    intro i
    have hnat : (10 : ℚ) ^ (306 + i : Int) = 10 ^ (306 + i) := by
      rw [← zpow_natCast, Nat.cast_add, Nat.cast_ofNat]
    rw [bne_iff_ne, Ne, compareScaled_eq, compare_gt_iff_gt, Nat.cast_one, one_mul, hnat, not_lt]
  have hbelow : ∀ i : Nat, i ≤ 2 → (compareScaled 1 (306 + i) x.m x.q != .gt) = true := by
    intro i hi
    rw [hcompare]
    exact le_trans (pow_le_pow_right₀ (by norm_num) (by omega)) hlarge
  have habove : (compareScaled 1 (306 + (3 : Nat)) x.m x.q != .gt) = false := by
    rw [← Bool.not_eq_true, hcompare, not_le]
    exact (lt_overflowLimit hc (near_self x.m x.q)).trans overflowLimit_lt_ten_pow
  have hrange : List.range 4 = [0, 1, 2, 3] := rfl
  unfold Binary.scale
  simp only [hestimate, hrange, List.takeWhile, hbelow 0 (by omega), hbelow 1 (by omega),
    hbelow 2 (by omega), habove]
  rfl

/-- A double beyond `10 ^ 308` has no digits behind the seventeenth. -/
theorem shortest_large (hnarrow : x.narrowBelow ↔ x.m = 2 ^ 52 ∧ -1074 < x.q) (tie : Tie) :
    292 ≤ (x.shortest tie).exp := by
  have hfine : (10 : ℚ) ^ (292 : Int) < 3 / 4 * 2 ^ x.q := by
    rw [q_large hc hlarge, zpow_ofNat, zpow_ofNat, div_mul_eq_mul_div, lt_div_iff₀ (by norm_num),
      mul_comm]
    exact_mod_cast ten_pow_bounds.2.2.1
  have hfirst : (309 : Int) - 1 = 308 := by decide
  rw [Binary.shortest, if_neg hc.pos.ne', scale_large hc hlarge]
  simp only [hfirst]
  refine le_trans ?_ (exp_le_strip _)
  cases hfound : (List.range 17).findSome? fun (n : Nat) => x.onGrid? tie (308 - n) with
  | none =>
    obtain ⟨d, hd⟩ := exists_onGrid? hc hnarrow tie hfine
    have hnone := List.findSome?_eq_none_iff.mp hfound 16 (by decide)
    have hlast : (308 - (16 : Nat) : Int) = 292 := by decide
    rw [hlast, hd] at hnone
    cases hnone
  | some d =>
    obtain ⟨n, hn, hd⟩ := List.exists_of_findSome?_eq_some hfound
    have hn := List.mem_range.mp hn
    rw [Option.getD_some, exp_of_onGrid? hd]
    omega

end Large

end Darkroom.Decimal
