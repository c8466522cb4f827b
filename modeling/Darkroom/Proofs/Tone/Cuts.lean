import Darkroom.Proofs.Arithmetic.Exact
import Darkroom.Tone.Levels

/-!
# Where the scans of automatic levels stop

Both scans are one scan over a sequence of counts, which the bright end has mirrored: it stops before
a value that has pixels, once the share that was passed lies closer to the wanted one without these
pixels than with them (`Stops`, in integers). The bounds of a channel are in order unless the two
scans together go farther than the range.

They do so only if one of them finds no place to stop before the far end and the other one leaves its
start (`crossed_iff`). In any other case both stop in between, each having passed at most 1.2% of the
pixels, which is too little to pass all of them.
-/

namespace Darkroom

namespace Levels

/-- How many pixels the first `n` values have. -/
def passed (f : ℕ → ℕ) (n : ℕ) : ℕ :=
  ∑ i ∈ Finset.range n, f i

/-- Whether a scan may stop before a value: it has pixels, and the shares without and with these
lie on average above 0.6%. Written with whole numbers it can be decided, and no rounding is left
in it. -/
def Stops (f : ℕ → ℕ) (total b : ℕ) : Prop :=
  0 < f b ∧ 12 * total < 1000 * (passed f b + passed f (b + 1))

instance (f : ℕ → ℕ) (total b : ℕ) : Decidable (Stops f total b) :=
  inferInstanceAs (Decidable (_ ∧ _))

/-- How far a scan goes: to the first value it may stop before, or nowhere. A scan does not look at
its first value, as there is nothing before it to stop at. -/
def stop (f : ℕ → ℕ) (max total : ℕ) : ℕ :=
  match (List.range max).find? fun i => Stops f total (i + 1) with
  | none => 0
  | some i => i + 1

/-- A scan that starts does not stop before the last value, which has pixels. It goes over the whole
range then, past the values that the scan from the other end begins with. -/
def Runaway (f : ℕ → ℕ) (max total : ℕ) : Prop :=
  0 < f max ∧ (∃ b < max, 0 < f b) ∧ ∀ b, 1 ≤ b → b < max → ¬Stops f total b

/-! ## The comparison -/

theorem isCloser_real {total : ℕ} (htotal : 0 < total) (p m : ℕ) :
    isCloser ℝ total p m = decide (0 < m ∧ 12 * total < 1000 * (p + (p + m))) := by
  have ht : (0 : ℝ) < total := Nat.cast_pos.mpr htotal
  have hshares : |(p : ℝ) / total - 6 / 1000| < |((p + m : ℕ) : ℝ) / total - 6 / 1000|
      ↔ 0 < m ∧ 12 * total < 1000 * (p + (p + m)) := by
    -- Both sides squared: the difference of the squares has the sign of the product.
    have hfactor : (((p + m : ℕ) : ℝ) / total - 6 / 1000) ^ 2 - ((p : ℝ) / total - 6 / 1000) ^ 2
        = m * (1000 * (p + (p + m)) - 12 * total) / (1000 * total ^ 2) := by
      push_cast
      field_simp
      ring
    rw [← sq_lt_sq, ← sub_pos, hfactor, div_pos_iff_of_pos_right (by positivity)]
    rcases Nat.eq_zero_or_pos m with rfl | hm
    · simp
    · rw [mul_pos_iff_of_pos_left (Nat.cast_pos.mpr hm), sub_pos]
      constructor
      · intro h
        exact ⟨hm, by exact_mod_cast h⟩
      · intro h
        exact_mod_cast h.2
  unfold isCloser
  simp only [Arith.abs_real, Arith.ofNat_real, Arith.less_real]
  exact decide_eq_decide.mpr (by exact_mod_cast hshares)

section

variable {f : ℕ → ℕ} {total : ℕ}

theorem passed_succ (f : ℕ → ℕ) (n : ℕ) : passed f (n + 1) = passed f n + f n :=
  Finset.sum_range_succ f n

theorem passed_mono (f : ℕ → ℕ) : Monotone (passed f) := by
  intro m n h
  exact Finset.sum_le_sum_of_subset (Finset.range_subset_range.mpr h)

theorem isCloser_stops (htotal : 0 < total) (i : ℕ) :
    isCloser ℝ total (passed f (i + 1)) (f (i + 1)) = decide (Stops f total (i + 1)) := by
  rw [isCloser_real htotal, ← passed_succ]
  rfl

/-- A scan over the bins of a sequence, from the bin `s` on, in any arithmetic. -/
theorem cutAt_eq_find? {α : Type} [Arith α] (bin : ℕ → ℕ) : ∀ n s : ℕ,
    cutAt α total (passed f s) ((List.range' s n).map fun i => (bin i, f i, f (i + 1)))
      = ((List.range' s n).find? fun i => isCloser α total (passed f (i + 1)) (f (i + 1))).map bin
  | 0, _ => rfl
  | n + 1, s => by
      rw [List.range'_succ, List.map_cons, cutAt, ← passed_succ, List.find?_cons]
      cases isCloser α total (passed f (s + 1)) (f (s + 1)) with
      | true => rfl
      | false => exact cutAt_eq_find? bin n (s + 1)

/-- A whole scan. -/
theorem cutAt_range_find? {α : Type} [Arith α] (bin : ℕ → ℕ) (max : ℕ) :
    cutAt α total 0 ((List.range max).map fun i => (bin i, f i, f (i + 1)))
      = ((List.range max).find? fun i =>
          isCloser α total (passed f (i + 1)) (f (i + 1))).map bin := by
  rw [List.range_eq_range']
  exact cutAt_eq_find? bin max 0

/-- A whole scan with exact shares. -/
theorem cutAt_range (htotal : 0 < total) (bin : ℕ → ℕ) (max : ℕ) :
    cutAt ℝ total 0 ((List.range max).map fun i => (bin i, f i, f (i + 1)))
      = ((List.range max).find? fun i => Stops f total (i + 1)).map bin := by
  rw [cutAt_range_find?]
  simp only [isCloser_stops htotal]

/-! ## One scan -/

/-- A scan goes nowhere, as it may stop before no value, or to the first value it may stop before. -/
theorem stop_cases (f : ℕ → ℕ) (max total : ℕ) :
    (stop f max total = 0 ∧ ∀ b, 1 ≤ b → b ≤ max → ¬Stops f total b)
      ∨ (1 ≤ stop f max total ∧ stop f max total ≤ max ∧ Stops f total (stop f max total)
        ∧ ∀ b, 1 ≤ b → b < stop f max total → ¬Stops f total b) := by
  unfold stop
  cases hfind : (List.range max).find? fun i => Stops f total (i + 1) with
  | none =>
      refine .inl ⟨rfl, fun b hone hmax hstops => ?_⟩
      have hnone := List.find?_eq_none.mp hfind (b - 1) (List.mem_range.mpr (by omega))
      rw [Nat.sub_add_cancel hone] at hnone
      exact hnone (decide_eq_true hstops)
  | some i =>
      obtain ⟨hstops, k, hk, heq, hbefore⟩ := List.find?_eq_some_iff_getElem.mp hfind
      rw [List.length_range] at hk
      rw [List.getElem_range] at heq
      subst heq
      refine .inr ⟨by simp, hk, of_decide_eq_true hstops, fun b hone hlt hb => ?_⟩
      have hno := hbefore (b - 1) (by simp only at hlt; omega)
      rw [List.getElem_range, Nat.sub_add_cancel hone, decide_eq_true hb] at hno
      cases hno

theorem stop_le (f : ℕ → ℕ) (max total : ℕ) : stop f max total ≤ max := by
  rcases stop_cases f max total with ⟨hzero, -⟩ | ⟨-, hle, -⟩
  · omega
  · exact hle

/-- Where a scan has not stopped although it has seen pixels behind its start, it has passed at most
1.2% of all pixels. -/
theorem passed_le_of_quiet {start n : ℕ} (hstart : 0 < f start) (hone : 1 ≤ start)
    (hle : start ≤ n) (hquiet : ∀ b, 1 ≤ b → b ≤ n → ¬Stops f total b) :
    1000 * passed f (n + 1) ≤ 12 * total := by
  induction n, hle using Nat.le_induction with
  | base =>
      have hno := hquiet start hone le_rfl
      rw [Stops, not_and, not_lt] at hno
      have hbound := hno hstart
      omega
  | succ n hle ih =>
      have hbefore := ih fun b hb hbn => hquiet b hb (by omega)
      have hno := hquiet (n + 1) (by omega) le_rfl
      rw [Stops, not_and, not_lt] at hno
      rcases Nat.eq_zero_or_pos (f (n + 1)) with hnone | hsome
      · rw [passed_succ, hnone]
        exact hbefore
      · have hbound := hno hsome
        omega

/-- A runaway scan goes to the end. -/
theorem stop_of_runaway {max : ℕ} (htotal : passed f (max + 1) = total) (hpos : 0 < total)
    (h : Runaway f max total) : stop f max total = max := by
  obtain ⟨hlast, ⟨b, hb, -⟩, hquiet⟩ := h
  have hstops : Stops f total max := by
    refine ⟨hlast, ?_⟩
    rw [htotal]
    omega
  rcases stop_cases f max total with ⟨-, hnone⟩ | ⟨hone, hle, hstop, -⟩
  · exact absurd hstops (hnone max (by omega) le_rfl)
  · by_contra hne
    exact hquiet _ hone (by omega) hstop

/-- A scan that goes to the end while the other one leaves its start is a runaway. -/
theorem runaway_of_stop {max : ℕ} (hend : stop f max total = max) (hone : 1 ≤ max)
    (hother : ∃ b < max, 0 < f b) : Runaway f max total := by
  rcases stop_cases f max total with ⟨hzero, -⟩ | ⟨-, -, hstop, hquiet⟩
  · omega
  · rw [hend] at hstop hquiet
    exact ⟨hstop.1, hother, hquiet⟩

end

/-! ## Both scans -/

section

variable {f g : ℕ → ℕ} {max total : ℕ} (hmirror : ∀ k ≤ max, g k = f (max - k))
  (htotal : passed f (max + 1) = total)

include hmirror htotal

/-- What is in front of a value from one end and what is in front of its successor from the other
end is all there is. -/
theorem passed_mirror {b : ℕ} : ∀ {k : ℕ}, b + k = max + 1 → passed f b + passed g k = total
  | 0, h => by
      obtain rfl : b = max + 1 := by omega
      rw [htotal]
      rfl
  | k + 1, h => by
      have hrest : passed f (b + 1) + passed g k = total := passed_mirror (by omega)
      have hvalue : g k = f b := by
        rw [hmirror k (by omega)]
        congr 1
        omega
      rw [passed_succ] at hrest
      rw [passed_succ, hvalue]
      omega

/-- A scan that cannot leave its start has nothing to pass behind it. -/
theorem stop_pos (hpos : 0 < total) : 1 ≤ stop g max total ↔ ∃ b < max, 0 < f b := by
  constructor
  · intro h
    rcases stop_cases g max total with ⟨hzero, -⟩ | ⟨-, hle, ⟨hvalue, -⟩, -⟩
    · omega
    · rw [hmirror _ hle] at hvalue
      exact ⟨max - stop g max total, by omega, hvalue⟩
  · rintro ⟨b, hb, hvalue⟩
    rcases stop_cases g max total with ⟨-, hquiet⟩ | ⟨hone, -⟩
    · exfalso
      have hstart : 0 < g (max - b) := by
        rw [hmirror _ (by omega)]
        rwa [Nat.sub_sub_self hb.le]
      have hpassed := passed_le_of_quiet hstart (by omega) (Nat.sub_le max b) hquiet
      have hall : passed f 0 + passed g (max + 1) = total :=
        passed_mirror hmirror htotal (Nat.zero_add _)
      have hnone : passed f 0 = 0 := rfl
      omega
    · exact hone

end

section

variable {f g : ℕ → ℕ} {max total : ℕ} (hmirror : ∀ k ≤ max, g k = f (max - k))
  (hmirror' : ∀ k ≤ max, f k = g (max - k)) (htotal : passed f (max + 1) = total)
  (htotal' : passed g (max + 1) = total) (hpos : 0 < total)

include hmirror in
/-- Where a scan stopped before the end, but behind the place where the other one stopped, it passed
few pixels. -/
theorem passed_stop_le (hend : stop f max total < max) (hother : stop g max total < max)
    (hcross : max < stop f max total + stop g max total) :
    1000 * passed f (stop f max total) ≤ 12 * total := by
  rcases stop_cases f max total with ⟨hzero, -⟩ | ⟨hone, hle, -, hquiet⟩
  · omega
  rcases stop_cases g max total with ⟨hzero, -⟩ | ⟨hone', hle', hstop, -⟩
  · omega
  have hstart : 0 < f (max - stop g max total) := by
    rw [← hmirror _ hle']
    exact hstop.1
  have hpassed := passed_le_of_quiet (n := stop f max total - 1) hstart (by omega) (by omega)
    fun b hb hbn => hquiet b hb (by omega)
  rwa [Nat.sub_add_cancel hone] at hpassed

include hmirror hmirror' htotal htotal' hpos in
/-- The scans go farther than the range exactly if one of them runs away. -/
theorem crossed_iff : max < stop f max total + stop g max total
    ↔ Runaway f max total ∨ Runaway g max total := by
  have hle := stop_le f max total
  have hle' := stop_le g max total
  constructor
  · intro hcross
    by_cases hend : stop f max total = max
    · exact .inl (runaway_of_stop hend (by omega)
        ((stop_pos hmirror htotal hpos).mp (by omega)))
    by_cases hend' : stop g max total = max
    · exact .inr (runaway_of_stop hend' (by omega)
        ((stop_pos hmirror' htotal' hpos).mp (by omega)))
    -- Both stop in between, so each passed little; but together they passed everything.
    have hfew := passed_stop_le hmirror (by omega) (by omega) hcross
    have hcross' : max < stop g max total + stop f max total := by omega
    have hfew' := passed_stop_le hmirror' (by omega) (by omega) hcross'
    have hall : passed f (stop f max total) + passed g (max + 1 - stop f max total) = total :=
      passed_mirror hmirror htotal (by omega)
    have hmore : passed g (max + 1 - stop f max total) ≤ passed g (stop g max total) :=
      passed_mono g (by omega)
    omega
  · rintro (h | h)
    · have hend := stop_of_runaway htotal hpos h
      have hother := (stop_pos hmirror htotal hpos).mpr h.2.1
      omega
    · have hend := stop_of_runaway htotal' hpos h
      have hother := (stop_pos hmirror' htotal' hpos).mpr h.2.1
      omega

end

end Levels

end Darkroom
