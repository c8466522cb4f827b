import Darkroom.Arithmetic
import Mathlib.Analysis.SpecialFunctions.Pow.Real

/-!
# Exact arithmetic

The steps that are written for any arithmetic on fractions can be taken with the real numbers, where
nothing is rounded but what the step itself rounds. A value that is no number does not exist there.
-/

namespace Darkroom

namespace Exact

/-- An integer kept within 64 bits. Running doubles saturate when they are converted, so exact
numbers have to as well if the two are to be compared. -/
def within (n : ℤ) : ℤ :=
  max (-2 ^ 63) (min n (2 ^ 63 - 1))

/-- The nearest integer, a half away from zero. Statements compare the conversions that are bounded
with this one. -/
noncomputable def nearest (x : ℝ) : ℤ :=
  if 0 ≤ x then ⌊x + 1 / 2⌋ else ⌈x - 1 / 2⌉

noncomputable def whole (x : ℝ) : ℤ :=
  if 0 ≤ x then ⌊x⌋ else ⌈x⌉

end Exact

open Exact

-- Expressions over the real numbers are to find their own division, not that of an arithmetic.
noncomputable instance divReal : Div ℝ :=
  DivInvMonoid.toDiv

noncomputable instance : Arith ℝ where
  beq x y := decide (x = y)
  ofInt n := n
  less x y := decide (x < y)
  isNaN _ := false
  truncate x := within (whole x)
  round x := within (nearest x)
  pow x y := x ^ y

namespace Arith

@[simp]
theorem ofInt_real (n : ℤ) : (ofInt n : ℝ) = n :=
  rfl

@[simp]
theorem ofNat_real (n : ℕ) : (Arith.ofNat n : ℝ) = n :=
  Int.cast_natCast n

@[simp]
theorem less_real (x y : ℝ) : less x y = decide (x < y) :=
  rfl

@[simp]
theorem beq_real (x y : ℝ) : (x == y) = decide (x = y) :=
  rfl

theorem abs_real (x : ℝ) : Arith.abs x = |x| := by
  rw [Arith.abs, less_real, ofInt_real, Int.cast_zero]
  by_cases hx : x < 0
  · rw [if_pos (decide_eq_true hx), abs_of_neg hx]
    exact zero_sub x
  · rw [if_neg (by simpa using hx), abs_of_nonneg (not_lt.mp hx)]

theorem clamp_real {low high x : ℝ} (h : low ≤ high) :
    clamp low high x = max low (min high x) := by
  rw [clamp, less_real, less_real]
  by_cases hlow : x < low
  · rw [if_pos (decide_eq_true hlow), max_eq_left]
    exact (min_le_right high x).trans hlow.le
  rw [if_neg (by simpa using hlow)]
  rw [not_lt] at hlow
  by_cases hhigh : high < x
  · rw [if_pos (decide_eq_true hhigh), min_eq_left hhigh.le, max_eq_right h]
  · rw [if_neg (by simpa using hhigh), min_eq_right (not_lt.mp hhigh), max_eq_right hlow]

end Arith

/-! ## Rounding -/

namespace Exact

theorem within_mono : Monotone within := fun _ _ h =>
  max_le_max_left _ (min_le_min_right _ h)

theorem nearest_mono : Monotone nearest := by
  intro x y h
  unfold nearest
  by_cases hx : 0 ≤ x
  · rw [if_pos hx, if_pos (hx.trans h)]
    exact Int.floor_mono (by linarith)
  rw [if_neg hx]
  by_cases hy : 0 ≤ y
  · rw [if_pos hy]
    have hleft : ⌈x - 1 / 2⌉ ≤ 0 := Int.ceil_le.mpr (by push_cast; linarith)
    have hright : 0 ≤ ⌊y + 1 / 2⌋ := Int.floor_nonneg.mpr (by linarith)
    exact hleft.trans hright
  · rw [if_neg hy]
    exact Int.ceil_mono (by linarith)

theorem nearest_natCast (n : ℕ) : nearest n = n := by
  rw [nearest, if_pos n.cast_nonneg]
  refine Int.floor_eq_iff.mpr ⟨?_, ?_⟩ <;> push_cast <;> linarith

@[simp]
theorem nearest_zero : nearest 0 = 0 := by
  have hzero := nearest_natCast 0
  rwa [Nat.cast_zero, Nat.cast_zero] at hzero

/-- A half goes away from zero on either side of it. -/
theorem nearest_neg (x : ℝ) : nearest (-x) = -nearest x := by
  rcases lt_trichotomy x 0 with hx | rfl | hx
  · rw [nearest, if_pos (by linarith), nearest, if_neg (by linarith), ← Int.floor_neg]
    congr 1
    ring
  · rw [neg_zero, nearest_zero, neg_zero]
  · rw [nearest, if_neg (by linarith), nearest, if_pos hx.le, ← Int.ceil_neg]
    congr 1
    ring

@[simp]
theorem nearest_intCast (n : ℤ) : nearest n = n := by
  obtain ⟨k, rfl | rfl⟩ := n.eq_nat_or_neg
  · rw [Int.cast_natCast, nearest_natCast]
  · rw [Int.cast_neg, Int.cast_natCast, nearest_neg, nearest_natCast]

theorem le_nearest_iff {n : ℤ} (hn : 0 < n) {x : ℝ} : n ≤ nearest x ↔ (n : ℝ) - 1 / 2 ≤ x := by
  have hone : (1 : ℝ) ≤ n := by exact_mod_cast hn
  rw [nearest]
  split
  · rw [Int.le_floor, sub_le_iff_le_add]
  · rename_i hx
    rw [not_le] at hx
    have hceil : ⌈x - 1 / 2⌉ ≤ 0 := Int.ceil_le.mpr (by push_cast; linarith)
    exact iff_of_false (by omega) (by linarith)

theorem nearest_le_iff {n : ℤ} (hn : n < 0) {x : ℝ} : nearest x ≤ n ↔ x ≤ (n : ℝ) + 1 / 2 := by
  have hmirror := le_nearest_iff (Int.neg_pos_of_neg hn) (x := -x)
  rw [nearest_neg, neg_le_neg_iff] at hmirror
  rw [hmirror, Int.cast_neg]
  constructor <;> intro h <;> linarith

theorem nearest_eq_of_pos {n : ℤ} (hn : 0 < n) {x : ℝ} (hlow : (n : ℝ) - 1 / 2 ≤ x)
    (hhigh : x < (n : ℝ) + 1 / 2) : nearest x = n := by
  have hreached := (le_nearest_iff hn).mpr hlow
  have hnext : ¬n + 1 ≤ nearest x := by
    rw [le_nearest_iff (by omega)]
    push_cast
    linarith
  omega

end Exact

theorem roundClamp_mono (max : ℕ) : Monotone fun x : ℝ => roundClamp x max := by
  intro x y h
  exact min_le_min_right max (Int.toNat_le_toNat (within_mono (nearest_mono h)))

/-- Nothing is cut off from a value between the ends, so rounding is all that happens to it. -/
theorem roundClamp_of_mem {x : ℝ} {max : ℕ} (h : x ∈ Set.Icc (0 : ℝ) max) (hmax : max < 2 ^ 63) :
    (roundClamp x max : ℤ) = nearest x := by
  have hlow := nearest_mono h.1
  have hhigh := nearest_mono h.2
  rw [nearest_zero] at hlow
  rw [nearest_natCast] at hhigh
  show ((Arith.clampNat max (within (nearest x)) : ℕ) : ℤ) = nearest x
  rw [Arith.clampNat, within]
  omega

theorem roundClamp_natCast {n max : ℕ} (h : n ≤ max) (hmax : max < 2 ^ 63) :
    roundClamp (n : ℝ) max = n := by
  have hrounded := roundClamp_of_mem ⟨n.cast_nonneg, Nat.cast_le.mpr h⟩ hmax
  rw [nearest_natCast] at hrounded
  exact Int.natCast_inj.mp hrounded

end Darkroom
