import Mathlib
import Darkroom.Proofs.Action.Settled

/-!
# Equality of actions

Equality looks one way: it counts the parameters of both actions and looks up each one of the first
in the second. Where no action has a name twice, the names of the first are then all the names of the
second, so the other way holds as well, and actions are equal exactly if they name the same filter,
version and category and agree on every key (`sameAs_iff`). From there on equality is symmetric and
transitive because equality of values is. It is reflexive as far as values are: NaN is the only value
that does not equal itself.

Values are equal without being the same only if they are zeros of different signs
(`ParamValue.eq_or_oppositeZeros`).
-/

namespace Darkroom

namespace ParamValue

/-! ## Values -/

def double? : ParamValue → Option Float
  | double x => some x
  | _ => none

/-- The two zeros, in either order. They are the only values that are equal without being the same,
which is where equal actions may still differ in effect. -/
def OppositeZeros : ParamValue → ParamValue → Prop
  | double x, double y => x = 0 ∧ y = -0 ∨ x = -0 ∧ y = 0
  | _, _ => False

theorem sameAs_self {v : ParamValue} (h : ∀ x ∈ v.double?, x.isNaN = false) : v.sameAs v := by
  cases v with
  | double x => simpa [sameAs] using h x rfl
  | _ => simp [sameAs]

theorem sameAs_self_iff {v : ParamValue} :
    v.sameAs v ↔ ∀ x ∈ v.double?, x.isNaN = false := by
  refine ⟨fun h x hx => ?_, sameAs_self⟩
  cases v with
  | double y =>
    obtain rfl : y = x := Option.some.inj hx
    have hy : y ≠ Float.nan := Float.beq_self_iff.mp h
    rw [Float.isNaN_eq_decide_eq_nan]
    exact decide_eq_false hy
  | _ => cases hx

theorem sameAs_symm {v w : ParamValue} (h : v.sameAs w) : w.sameAs v := by
  cases v <;> cases w <;> first | exact BEq.symm h | cases h

theorem sameAs_trans {u v w : ParamValue} (huv : u.sameAs v) (hvw : v.sameAs w) : u.sameAs w := by
  cases u <;> cases v <;> first | cases huv | skip
  all_goals cases w <;> first | exact BEq.trans huv hvw | cases hvw

theorem eq_or_oppositeZeros {v w : ParamValue} (h : v.sameAs w) : v = w ∨ v.OppositeZeros w := by
  cases v <;> cases w
  case double.double x y =>
    obtain ⟨-, -, hxy⟩ := Float.beq_iff_ne_nan_and_eq.mp h
    exact hxy.imp_left fun hxy => congrArg double hxy
  all_goals first | exact .inl (congrArg _ (eq_of_beq h)) | cases h

end ParamValue

namespace Action

/-! ## Keys -/

/-- A key is set exactly if it is a name. -/
theorem isSome_value? {a : Action} {key : String} :
    (a.value? key).isSome ↔ key ∈ a.parameters.map (·.name) := by
  simp [value?, List.find?_isSome]

/-- Under distinct names a key holds the value of its parameter. -/
theorem value?_eq_some_iff {a : Action} (ha : a.DistinctNames) {key : String} {v : ParamValue} :
    a.value? key = some v ↔ ⟨key, v⟩ ∈ a.parameters := by
  constructor
  · intro h
    obtain ⟨p, hp, rfl⟩ := Option.map_eq_some_iff.mp h
    have hname : p.name = key := by simpa using List.find?_some hp
    exact hname ▸ List.mem_of_find?_eq_some hp
  · intro h
    rw [value?, find?_of_mem ha h, Option.map_some]

/-! ## One way -/

theorem sameAs_iff_forall {a b : Action} : a.sameAs b ↔
    a.identifier = b.identifier ∧ a.version = b.version ∧ a.category = b.category
      ∧ a.parameters.length = b.parameters.length
      ∧ ∀ p ∈ a.parameters, ∃ v, b.value? p.name = some v ∧ v.sameAs p.value := by
  simp only [sameAs, Bool.and_eq_true, beq_iff_eq, List.all_eq_true, and_assoc]
  refine and_congr_right' (and_congr_right' (and_congr_right' (and_congr_right'
    (forall₂_congr fun p _ => ?_))))
  cases b.value? p.name <;> simp

/-- Names that do not repeat and all stand among as many others are these others. -/
theorem names_of_sameAs {a b : Action} (ha : a.DistinctNames) (h : a.sameAs b) :
    (a.parameters.map (·.name)).Perm (b.parameters.map (·.name)) := by
  obtain ⟨-, -, -, hlength, hlookup⟩ := sameAs_iff_forall.mp h
  have hsub : a.parameters.map (·.name) ⊆ b.parameters.map (·.name) := by
    intro key hkey
    obtain ⟨p, hp, rfl⟩ := List.mem_map.mp hkey
    obtain ⟨v, hv, -⟩ := hlookup p hp
    exact isSome_value?.mp (Option.isSome_of_eq_some hv)
  have hsubperm := ha.subperm hsub
  exact hsubperm.perm_of_length_le (by simp [hlength])

/-! ## Both ways -/

/-- Equal values, or none. Two look-ups of one key are compared in this way, so that a key that only
one action has is seen as a difference. -/
def Agree : Option ParamValue → Option ParamValue → Prop :=
  Option.Rel fun v w => v.sameAs w

theorem Agree.symm {o o' : Option ParamValue} (h : Agree o o') : Agree o' o := by
  cases h with
  | some hvw => exact .some (ParamValue.sameAs_symm hvw)
  | none => exact .none

theorem Agree.trans {o o' o'' : Option ParamValue} (h : Agree o o') (h' : Agree o' o'') :
    Agree o o'' := by
  cases h with
  | some huv =>
    cases h' with
    | some hvw => exact .some (ParamValue.sameAs_trans huv hvw)
  | none => exact h'

theorem Agree.isSome {o o' : Option ParamValue} (h : Agree o o') : o.isSome ↔ o'.isSome := by
  cases h <;> rfl

theorem Agree.exists_some {v : ParamValue} {o : Option ParamValue} (h : Agree (some v) o) :
    ∃ w, o = some w ∧ v.sameAs w := by
  cases h with
  | some hsame => exact ⟨_, rfl, hsame⟩

/-- Values that agree are the same, zeros of different signs apart. -/
theorem Agree.eq_or_oppositeZeros {o o' : Option ParamValue} (h : Agree o o') :
    o = o' ∨ ∃ v w, o = some v ∧ o' = some w ∧ v.OppositeZeros w := by
  cases h with
  | some hsame =>
    refine (ParamValue.eq_or_oppositeZeros hsame).imp (congrArg some) fun hopposite => ?_
    exact ⟨_, _, rfl, rfl, hopposite⟩
  | none => exact .inl rfl

/-- Equality goes both ways: no key is set in one action only. -/
theorem sameAs_iff {a b : Action} (ha : a.DistinctNames) (hb : b.DistinctNames) : a.sameAs b ↔
    a.identifier = b.identifier ∧ a.version = b.version ∧ a.category = b.category
      ∧ ∀ key, Agree (a.value? key) (b.value? key) := by
  constructor
  · intro h
    have hnames := names_of_sameAs ha h
    obtain ⟨hidentifier, hversion, hcategory, -, hlookup⟩ := sameAs_iff_forall.mp h
    refine ⟨hidentifier, hversion, hcategory, fun key => ?_⟩
    cases hkey : a.value? key with
    | some v =>
      obtain ⟨w, hw, hsame⟩ := hlookup _ ((value?_eq_some_iff ha).mp hkey)
      rw [hw]
      exact .some (ParamValue.sameAs_symm hsame)
    | none =>
      have hkeyb : ¬(b.value? key).isSome := by
        rw [isSome_value?, ← hnames.mem_iff, ← isSome_value?, hkey]
        exact Bool.false_ne_true
      rw [Option.not_isSome_iff_eq_none.mp hkeyb]
      exact .none
  · rintro ⟨hidentifier, hversion, hcategory, hagree⟩
    have hmem : ∀ key, key ∈ a.parameters.map (·.name) ↔ key ∈ b.parameters.map (·.name) :=
      fun key => by rw [← isSome_value?, (hagree key).isSome, isSome_value?]
    have hlength := ((List.perm_ext_iff_of_nodup ha hb).mpr hmem).length_eq
    rw [List.length_map, List.length_map] at hlength
    refine sameAs_iff_forall.mpr ⟨hidentifier, hversion, hcategory, hlength, fun p hp => ?_⟩
    have hsame : Agree (some p.value) (b.value? p.name) :=
      (value?_eq_some_iff ha).mpr hp ▸ hagree p.name
    obtain ⟨w, hw, hsame⟩ := hsame.exists_some
    exact ⟨w, hw, ParamValue.sameAs_symm hsame⟩

section Laws

variable {a b c : Action} (ha : a.DistinctNames) (hb : b.DistinctNames) (hc : c.DistinctNames)
include ha

/-- An action equals itself unless it holds NaN. -/
theorem sameAs_self_iff :
    a.sameAs a ↔ ∀ p ∈ a.parameters, ∀ x ∈ p.value.double?, x.isNaN = false := by
  refine ⟨fun h p hp => ?_, fun h => sameAs_self ha fun p hp => ParamValue.sameAs_self (h p hp)⟩
  obtain ⟨-, -, -, -, hlookup⟩ := sameAs_iff_forall.mp h
  obtain ⟨v, hv, hsame⟩ := hlookup p hp
  rw [(value?_eq_some_iff ha).mpr hp, Option.some.injEq] at hv
  exact ParamValue.sameAs_self_iff.mp (hv ▸ hsame)

include hb

theorem sameAs_symm (h : a.sameAs b) : b.sameAs a := by
  obtain ⟨hidentifier, hversion, hcategory, hagree⟩ := (sameAs_iff ha hb).mp h
  exact (sameAs_iff hb ha).mpr
    ⟨hidentifier.symm, hversion.symm, hcategory.symm, fun key => (hagree key).symm⟩

include hc in
theorem sameAs_trans (hab : a.sameAs b) (hbc : b.sameAs c) : a.sameAs c := by
  obtain ⟨hidentifier, hversion, hcategory, hagree⟩ := (sameAs_iff ha hb).mp hab
  obtain ⟨hidentifier', hversion', hcategory', hagree'⟩ := (sameAs_iff hb hc).mp hbc
  exact (sameAs_iff ha hc).mpr ⟨hidentifier.trans hidentifier', hversion.trans hversion',
    hcategory.trans hcategory', fun key => (hagree key).trans (hagree' key)⟩

end Laws

/-- Neither the order of the parameters nor the display name counts. -/
theorem sameAs_reordered {a b : Action} {ps : List Parameter} (hps : ps.Perm a.parameters)
    (name : Option String) :
    sameAs { a with displayName := name, parameters := ps } b ↔ a.sameAs b := by
  simp only [sameAs_iff_forall, hps.length_eq, hps.mem_iff]

end Action

end Darkroom
