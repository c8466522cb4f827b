import Darkroom.Proofs.Action.RoundTrip

/-!
# Parameters set anew

A reader of the log sets parameters one after the other, so of a key that stands twice among the
parameters of an action it keeps the first place and the last value (`value?_settled`). A look-up in
the action itself finds the first value. Equality counts parameters, so an action equals what a
reader makes of it exactly if no key stands twice (`sameAs_settled`).
-/

namespace Darkroom

namespace Action

/-- The value that is set last under a key. A look-up gives the first one, so the two differ where a
key stands twice. -/
def lastValue? (a : Action) (key : String) : Option ParamValue :=
  (a.parameters.reverse.find? (·.name = key)).map (·.value)

/-! ## Values -/

theorem find?_setIn (key other : String) (value : ParamValue) (ps : List Parameter) :
    ((setIn key value ps).find? (·.name = other)).map (·.value)
      = if key = other then some value else (ps.find? (·.name = other)).map (·.value) := by
  induction ps with
  | nil => by_cases h : key = other <;> simp [setIn, h]
  | cons p ps ih =>
    rw [setIn]
    by_cases hp : p.name = key
    · by_cases h : key = other <;> simp [hp, h]
    · rw [if_neg hp]
      by_cases hother : p.name = other
      · have hkey : key ≠ other := fun h => hp (hother.trans h.symm)
        simp [hother, hkey]
      · simpa [hother] using ih

theorem value?_add (a : Action) (key other : String) (value : ParamValue) :
    (a.add key value).value? other = if key = other then some value else a.value? other :=
  find?_setIn key other value a.parameters

theorem value?_addAll (key : String) (ps : List Parameter) : ∀ a : Action,
    (a.addAll ps).value? key
      = ((ps.reverse.find? (·.name = key)).map (·.value)).or (a.value? key) := by
  induction ps with
  | nil =>
    intro a
    rfl
  | cons p ps ih =>
    intro a
    have hcons : a.addAll (p :: ps) = (a.add p.name p.value).addAll ps := rfl
    rw [hcons, ih, value?_add, List.reverse_cons, List.find?_append]
    cases ps.reverse.find? (·.name = key) with
    | some q => simp
    | none => by_cases hp : p.name = key <;> simp [hp]

theorem value?_settled (a : Action) (key : String) : a.settled.value? key = a.lastValue? key := by
  rw [settled, value?_addAll]
  exact Option.or_none

/-! ## Names -/

theorem mem_names_addAll {key : String} (ps : List Parameter) : ∀ a : Action,
    key ∈ (a.addAll ps).parameters.map (·.name)
      ↔ key ∈ a.parameters.map (·.name) ∨ key ∈ ps.map (·.name) := by
  induction ps with
  | nil =>
    intro a
    simp [addAll]
  | cons p ps ih =>
    intro a
    have hcons : a.addAll (p :: ps) = (a.add p.name p.value).addAll ps := rfl
    have hadd : (a.add p.name p.value).parameters.map (·.name)
        = if p.name ∈ a.parameters.map (·.name) then a.parameters.map (·.name)
          else a.parameters.map (·.name) ++ [p.name] := names_setIn _
    rw [hcons, ih, hadd]
    split
    · rename_i hmem
      constructor
      · rintro (h | h)
        · exact Or.inl h
        · exact Or.inr (List.mem_cons_of_mem _ h)
      · rintro (h | h)
        · exact Or.inl h
        · rcases List.mem_cons.mp h with rfl | h
          · exact Or.inl hmem
          · exact Or.inr h
    · rw [List.mem_append, List.mem_singleton, List.map_cons, List.mem_cons, or_assoc]

theorem mem_names_settled {a : Action} {key : String} :
    key ∈ a.settled.parameters.map (·.name) ↔ key ∈ a.parameters.map (·.name) := by
  rw [settled, mem_names_addAll]
  simp

theorem distinctNames_settled (a : Action) : a.settled.DistinctNames := by
  have hnone : DistinctNames { a with parameters := [] } := List.nodup_nil
  exact hnone.addAll a.parameters

/-- Setting anew loses a parameter for each key that stands there again. -/
theorem distinctNames_of_length {a : Action}
    (h : a.parameters.length ≤ a.settled.parameters.length) : a.DistinctNames := by
  have hsub : (a.settled.parameters.map (·.name)).Subperm (a.parameters.map (·.name)) :=
    (distinctNames_settled a).subperm fun _ => mem_names_settled.mp
  have hperm := hsub.perm_of_length_le (by simpa using h)
  exact hperm.nodup_iff.mp (distinctNames_settled a)

/-! ## Equality -/

theorem sameAs_self {a : Action} (ha : a.DistinctNames)
    (hvalues : ∀ p ∈ a.parameters, p.value.sameAs p.value) : a.sameAs a := by
  have hfind : ∀ p ∈ a.parameters, a.value? p.name = some p.value := fun p hp => by
    rw [value?, find?_of_mem ha hp, Option.map_some]
  simp only [sameAs, beq_self_eq_true, Bool.true_and, List.all_eq_true]
  intro p hp
  rw [hfind p hp]
  exact hvalues p hp

theorem length_of_sameAs {a b : Action} (h : a.sameAs b) :
    a.parameters.length = b.parameters.length := by
  simp only [sameAs, Bool.and_eq_true, beq_iff_eq] at h
  exact h.1.2

/-- Values apart that do not equal themselves, an action equals itself set anew exactly if no key
stands twice. -/
theorem sameAs_settled {a : Action} (hvalues : ∀ p ∈ a.parameters, p.value.sameAs p.value) :
    a.settled.sameAs a ∧ a.sameAs a.settled ↔ a.DistinctNames := by
  constructor
  · rintro ⟨h, -⟩
    exact distinctNames_of_length (length_of_sameAs h).ge
  · intro ha
    rw [settled_of_distinct ha]
    exact ⟨sameAs_self ha hvalues, sameAs_self ha hvalues⟩

end Action

end Darkroom
