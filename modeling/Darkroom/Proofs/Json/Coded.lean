import Darkroom.Json.Coded
import Darkroom.Proofs.Json.Double
import Darkroom.Proofs.Json.Token

/-!
# Coded values read back

A type with a lossless form is a `LawfulCoded`: every value has a printable form and is read back
from it. Lists inherit this from their items, and the fields of a record are found by their names
(`fields?_record`). Doubles are not quite lossless: a finite one is read as a double (`readBack`),
and the others become `null`, which is no double.
-/

namespace Darkroom.Json

/-- Every value has a printable form and is read back from it. The second law does not speak of
text; with the first one it gives the round trip through text, once for all types. -/
class LawfulCoded (α : Type) [Coded α] : Prop where
  printable : ∀ a : α, (toJson a).Printable
  ofJson?_toJson : ∀ a : α, ofJson? (toJson a) = some a

export LawfulCoded (printable ofJson?_toJson)

/-! ## Scalars -/

theorem printable_int (n : Int) : (int n).Printable :=
  .number (Numeral.wellFormed_ofInt n)

/-- An integer within its bounds is read back. -/
theorem map_intBetween? {α : Type} {low high n : Int} {f : Int → α} {a : α} (hlow : low ≤ n)
    (hhigh : n ≤ high) (h : f n = a) : (intBetween? low high (int n)).map f = some a := by
  rw [int, intBetween?, Numeral.toInt?_ofInt, Option.filter_some, if_pos, Option.map_some, h]
  exact decide_eq_true ⟨hlow, hhigh⟩

instance : LawfulCoded Bool where
  printable b := .bool b
  ofJson?_toJson _ := rfl

instance : LawfulCoded String where
  printable s := .text s
  ofJson?_toJson _ := rfl

instance : LawfulCoded UInt8 where
  printable n := printable_int n.toNat
  ofJson?_toJson n := by
    have hlt := n.toNat_lt
    exact map_intBetween? (by omega) (by omega) UInt8.ofNat_toNat

instance : LawfulCoded UInt32 where
  printable n := printable_int n.toNat
  ofJson?_toJson n := by
    have hlt := n.toNat_lt
    exact map_intBetween? (by omega) (by omega) UInt32.ofNat_toNat

instance : LawfulCoded UInt64 where
  printable n := printable_int n.toNat
  ofJson?_toJson n := by
    have hlt := n.toNat_lt
    exact map_intBetween? (by omega) (by omega) UInt64.ofNat_toNat

instance : LawfulCoded Int32 where
  printable n := printable_int n.toInt
  ofJson?_toJson n := by
    have hlow := n.le_toInt
    have hhigh := n.toInt_lt
    exact map_intBetween? (by omega) (by omega) (Int32.ofInt_toInt n)

instance : LawfulCoded Int64 where
  printable n := printable_int n.toInt
  ofJson?_toJson n := by
    have hlow := n.le_toInt
    have hhigh := n.toInt_lt
    exact map_intBetween? (by omega) (by omega) (Int64.ofInt_toInt n)

/-! ## Lists -/

/-- A list is read if each of its items is. -/
theorem readAll_map {α β : Type} {write : α → Json} {read : Json → Option β} {p : α → Bool}
    {f : α → β} (h : ∀ a, read (write a) = if p a then some (f a) else none) (items : List α) :
    readAll read (items.map write) = if items.all p then some (items.map f) else none := by
  induction items with
  | nil => rfl
  | cons a items ih =>
    rw [List.map_cons, readAll, h a, ih, List.all_cons, List.map_cons]
    cases p a <;> cases items.all p <;> rfl

theorem printable_list {α : Type} [Coded α] {items : List α}
    (h : ∀ a ∈ items, (toJson a).Printable) : (toJson items).Printable := by
  refine .array fun v hv => ?_
  obtain ⟨a, ha, rfl⟩ := List.mem_map.mp hv
  exact h a ha

instance {α : Type} [Coded α] [LawfulCoded α] : LawfulCoded (List α) where
  printable items := printable_list fun a _ => printable a
  ofJson?_toJson items := by
    have hread := readAll_map (p := fun _ => true) (f := id) (ofJson?_toJson (α := α)) items
    rwa [List.map_id, if_pos (by simp)] at hread

/-! ## Records -/

theorem printable_record {members : List (String × Json)} (h : ∀ m ∈ members, m.2.Printable) :
    (record members).Printable := by
  refine .object (fun m hm => ?_) fun m hm => ?_
  · obtain ⟨member, -, rfl⟩ := List.mem_map.mp hm
    rfl
  · obtain ⟨member, hmember, rfl⟩ := List.mem_map.mp hm
    exact h member hmember

/-- Of different keys, each is found once. -/
theorem member?_eq (name : String) : ∀ {members : List (String × Json)},
    (members.map Prod.fst).Nodup →
      member? name (members.map fun m => (some m.1, m.2)) = some (members.lookup name)
  | [], _ => rfl
  | (key, v) :: members, h => by
      obtain ⟨hkey, hmembers⟩ := List.nodup_cons.mp h
      rw [List.map_cons, member?, List.lookup_cons]
      by_cases heq : key = name
      · subst heq
        have hany :
            (members.map fun m => (some m.1, m.2)).any (fun m => m.1 == some key) = false := by
          rw [List.any_eq_false]
          intro m hm hbeq
          obtain ⟨member, hmember, rfl⟩ := List.mem_map.mp hm
          exact hkey (List.mem_map.mpr ⟨member, hmember, Option.some.inj (eq_of_beq hbeq)⟩)
        simp only [hany, if_true, beq_self_eq_true]
        rfl
      · have hbeq : (name == key) = false := beq_false_of_ne (Ne.symm heq)
        rw [if_neg (fun hsome => heq (Option.some.inj hsome)), hbeq]
        exact member?_eq name hmembers

theorem members?_eq {members : List (String × Json)} (h : (members.map Prod.fst).Nodup) :
    ∀ names : List String, members? (members.map fun m => (some m.1, m.2)) names
      = some (names.map fun name => members.lookup name)
  | [] => rfl
  | name :: names => by
      rw [members?, member?_eq name h, members?_eq h names]
      rfl

/-- The fields of a record are its members of those names. -/
theorem fields?_record {names : List String} {members : List (String × Json)}
    (h : (members.map Prod.fst).Nodup) :
    fields? names (record members) = some (names.map fun name => members.lookup name) := by
  rw [record, fields?, if_pos (by simp)]
  exact members?_eq h names

/-- A field that is there is read as its value. -/
theorem required_toJson {α : Type} [Coded α] [LawfulCoded α] (a : α) :
    required (some (toJson a)) = some a :=
  ofJson?_toJson a

theorem orElse_toJson {α : Type} [Coded α] [LawfulCoded α] (default a : α) :
    orElse default (some (toJson a)) = some a :=
  ofJson?_toJson a

/-- A field that is left out where there is no value. -/
theorem nullable_toJson {α : Type} [Coded α] [LawfulCoded α] (h : ∀ a : α, toJson a ≠ .null) :
    ∀ a : Option α, nullable (a.map toJson) = some a
  | none => rfl
  | some a => by
      rw [Option.map_some, nullable]
      · rw [ofJson?_toJson, Option.map_some]
      · exact h a

/-! ## Doubles -/

theorem isFinite_iff (x : Float) : x.isFinite = true
    ↔ ∃ negative magnitude, Decimal.FloatKind.ofFloat x = .finite negative magnitude := by
  cases hx : Decimal.FloatKind.ofFloat x with
  | nan =>
    have hnot : x.isFinite = false := by
      rw [Decimal.eq_nan hx]
      rfl
    simp [hnot]
  | infinite negative =>
    have hnot : x.isFinite = false := by
      rw [Decimal.eq_infinite hx]
      cases negative <;> rfl
    simp [hnot]
  | finite negative magnitude =>
    have hfinite : x.isFinite = true := by
      by_cases hm : magnitude.m = 0
      · rw [Decimal.zero_of_finite hx hm]
        cases negative <;> rfl
      · obtain ⟨hc, heq, -⟩ := Decimal.canonical_of_finite hx hm
        rw [heq]
        exact Decimal.isFinite_ofCanonical hc
    simp [hfinite]

/-- A finite double is written as a number, and the number is read as a double. -/
theorem double_of_isFinite {x : Float} (h : x.isFinite) :
    ∃ n : Numeral, double x = .number n ∧ n.WellFormed ∧ n.toFloat?.isSome := by
  obtain ⟨negative, magnitude, hx⟩ := (isFinite_iff x).mp h
  have hmagnitude : Numeral.IsMagnitude magnitude := by
    by_cases hm : magnitude.m = 0
    · exact Or.inl hm
    · obtain ⟨hc, -, hnarrow⟩ := Decimal.canonical_of_finite hx hm
      exact Or.inr ⟨hc, hnarrow⟩
  obtain ⟨n, hn, hwellFormed, hread⟩ := Numeral.exists_ofFinite hmagnitude negative
  refine ⟨n, ?_, hwellFormed, hread⟩
  simp only [double, hx, hn]

/-- There is no number for the other doubles. -/
theorem double_of_not_isFinite {x : Float} (h : ¬x.isFinite) : double x = .null := by
  rw [isFinite_iff] at h
  rw [double]
  split
  · rename_i hx
    exact absurd ⟨_, _, hx⟩ h
  · rfl

theorem printable_double (x : Float) : (double x).Printable := by
  by_cases h : x.isFinite
  · obtain ⟨n, hdouble, hwellFormed, -⟩ := double_of_isFinite h
    rw [hdouble]
    exact .number hwellFormed
  · rw [double_of_not_isFinite h]
    exact .null

/-- What a reader makes of the form of a double. Where it makes nothing, as of the form of NaN, this
is the double itself. -/
def readBack (x : Float) : Float :=
  (ofJson? (toJson x) : Option Float).getD x

theorem ofJson?_double (x : Float) :
    (ofJson? (double x) : Option Float) = if x.isFinite then some (readBack x) else none := by
  by_cases h : x.isFinite
  · obtain ⟨n, hdouble, -, hread⟩ := double_of_isFinite h
    obtain ⟨y, hy⟩ := Option.isSome_iff_exists.mp hread
    have hform : (ofJson? (double x) : Option Float) = some y := by
      rw [hdouble]
      exact hy
    have hback : readBack x = (ofJson? (double x) : Option Float).getD x := rfl
    rw [if_pos h, hback, hform, Option.getD_some]
  · rw [if_neg h, double_of_not_isFinite h]
    rfl

end Darkroom.Json
