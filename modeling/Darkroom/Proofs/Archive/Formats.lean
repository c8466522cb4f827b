import Darkroom.Proofs.Archive.Action
import Darkroom.Proofs.Json.NotNaN

/-!
# Actions from JSON in the log

An action that is read from JSON keeps its parameters as they stand there. Written to the log and
read again, it has the last value of each key where it had the first one before, so the two formats
agree on an action exactly as far as the keys of its parameters differ (`log_of_json`).
-/

namespace Darkroom

open Json

theorem exists_of_mem_readAll {α : Type} {read : Json → Option α} {vs : List Json} : ∀ {as : List α},
    readAll read vs = some as → ∀ a ∈ as, ∃ v, read v = some a := by
  induction vs with
  | nil =>
    intro as h a ha
    obtain rfl := Option.some.inj h
    cases ha
  | cons v vs ih =>
    intro as h a ha
    rw [readAll] at h
    split at h
    · rename_i b others hb hothers
      obtain rfl := Option.some.inj h
      rcases List.mem_cons.mp ha with rfl | ha
      · exact ⟨v, hb⟩
      · exact ih hothers a ha
    · cases h

namespace ParamValue

/-- No double that is read from JSON is NaN. -/
theorem isNaN_of_ofJson? {v : Json} {p : ParamValue} (h : ofJson? v = some p) :
    ∀ x ∈ p.double?, x.isNaN = false := by
  intro x hx
  unfold ofJson? instCodedParamValue at h
  dsimp only at h
  split at h
  case h_2 w _ =>
    obtain ⟨y, hy, rfl⟩ := Option.map_eq_some_iff.mp h
    obtain rfl : y = x := Option.some.inj hx
    cases w with
    | number n => exact Numeral.isNaN_of_toFloat? hy
    | _ => cases hy
  case h_8 => cases h
  all_goals
    obtain ⟨y, -, rfl⟩ := Option.map_eq_some_iff.mp h
    cases hx

end ParamValue

theorem exists_of_orElse_nil {α : Type} [Coded α] {field : Option Json} {as : List α}
    (h : orElse [] field = some as) : ∃ vs, readAll ofJson? vs = some as := by
  cases field with
  | none => exact ⟨[], h⟩
  | some v =>
    cases v with
    | array vs => exact ⟨vs, h⟩
    | _ => cases h

theorem sameAs_of_parameter {v : Json} {p : Parameter} (h : ofJson? v = some p) :
    p.value.sameAs p.value := by
  unfold ofJson? instCodedParameter at h
  dsimp only at h
  split at h
  · rename_i name value _
    simp only [Option.bind_eq_bind, Option.bind_eq_some_iff] at h
    obtain ⟨key, -, w, hvalue, hp⟩ := h
    obtain rfl := Option.some.inj hp
    cases value with
    | none => cases hvalue
    | some u => exact ParamValue.sameAs_self (ParamValue.isNaN_of_ofJson? hvalue)
  · cases h

theorem sameAs_of_action {v : Json} {a : Action} (h : ofJson? v = some a) :
    ∀ p ∈ a.parameters, p.value.sameAs p.value := by
  unfold ofJson? instCodedAction at h
  dsimp only at h
  split at h
  · simp only [Option.bind_eq_bind, Option.bind_eq_some_iff] at h
    obtain ⟨identifier, -, version, -, category, -, displayName, -, ps, hparameters, ha⟩ := h
    obtain rfl := Option.some.inj ha
    intro p hp
    obtain ⟨vs, hvs⟩ := exists_of_orElse_nil hparameters
    obtain ⟨u, hu⟩ := exists_of_mem_readAll hvs p hp
    exact sameAs_of_parameter hu
  · cases h

namespace Action

/-- An action that is read from JSON and goes through the log comes back with the last values of its
keys. So all typed look-ups find what they found before exactly if no key has a last value other
than its first one, and the two actions are equal exactly if no key stands twice. -/
theorem log_of_json {v : Json} {a : Action} (h : ofJson? v = some a) :
    ∃ b, ofBytes a.toBytes = .ok b
      ∧ ((∀ (α : Type) [OfParam α] (key : String) (default : α),
          b.get key default = a.get key default) ↔ ∀ key, a.lastValue? key = a.value? key)
      ∧ (b.sameAs a ∧ a.sameAs b ↔ a.DistinctNames) := by
  refine ⟨a.settled, ofBytes_toBytes_settled a, ⟨fun hget key => ?_, fun hvalue α _ key default => ?_⟩,
    sameAs_settled (sameAs_of_action h)⟩
  · -- A type that takes every value as it is sees all of it.
    let _ : OfParam (Option ParamValue) := ⟨fun v => some (some v)⟩
    have hsame := hget (Option ParamValue) key none
    have hvalues : ∀ b : Action, b.get key none = b.value? key := by
      intro b
      rw [get]
      cases b.value? key <;> rfl
    rwa [hvalues, hvalues, value?_settled] at hsame
  · rw [get, get, value?_settled, hvalue]

def repeating : Action :=
  ⟨"x", 1, .reproducible, none, [⟨"k", .int 1⟩, ⟨"k", .int 2⟩]⟩

/-- The log loses the first value of the key. -/
theorem log_of_json_repeating :
    ofJson? (toJson repeating) = some repeating
      ∧ ∃ b, ofBytes repeating.toBytes = .ok b
        ∧ (¬∀ (α : Type) [OfParam α] (key : String) (default : α),
          b.get key default = repeating.get key default)
        ∧ ¬(b.sameAs repeating ∧ repeating.sameAs b) := by
  have hread : ofJson? (toJson repeating) = some repeating := by
    rw [ofJson?_action, if_pos (by decide)]
    rfl
  obtain ⟨b, hb, hget, hsame⟩ := log_of_json hread
  have hvalues : repeating.lastValue? "k" = some (.int 2) ∧ repeating.value? "k" = some (.int 1) :=
    ⟨rfl, rfl⟩
  have hdistinct : ¬repeating.DistinctNames := by decide
  refine ⟨hread, b, hb, fun h => ?_, fun h => hdistinct (hsame.mp h)⟩
  have hk := hget.mp h "k"
  rw [hvalues.1, hvalues.2] at hk
  cases hk

end Action

end Darkroom
