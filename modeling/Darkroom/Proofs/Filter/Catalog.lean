import Mathlib.Data.List.Dedup
import Mathlib.Data.List.Induction
import Mathlib.Data.List.Sort
import Darkroom.Filter.Catalog

/-!
# The last registration wins

A catalog and a registry that got the same registrations give the same answers (`Catalog.Answers`). The
catalog finds its entries by the order of identifiers, the registry asks the kinds one by one; what
they share, look-up for look-up, is `Catalog.Mirrors`, and a registration keeps it. After any
registrations an identifier has the entry of the last one that named it (`getElem?_registered`), and
from this follow the answers of the catalog (`Catalog.LastWins`).
-/

namespace Darkroom

/-! ## Kinds by identifier -/

namespace FilterKind

theorem ofIdentifier?_identifier (kind : FilterKind) :
    ofIdentifier? kind.identifier = some kind := by
  cases kind <;> decide

theorem identifier_of_ofIdentifier? {identifier : String} {kind : FilterKind}
    (h : ofIdentifier? identifier = some kind) : kind.identifier = identifier := by
  have hfound := List.find?_some h
  exact eq_of_beq hfound

theorem mem_all (kind : FilterKind) : kind ∈ all := by
  cases kind <;> decide

theorem sortedLT_identifiers : (all.map identifier).SortedLT := by
  decide

end FilterKind

/-! ## One registration -/

theorem Registry.versions_registering (r : Registry) (call : Registration) (kind : FilterKind) :
    (r.registering call).versions kind
      = if kind = call.kind then some call.range else r.versions kind := by
  cases call <;> rfl

namespace Catalog

variable {c : Catalog} {r : Registry}

theorem getElem?_registering (c : Catalog) (call : Registration) (identifier : String) :
    (c.registering call).entries[identifier]?
      = if call.identifier = identifier then some (.of call.kind call.range)
        else c.entries[identifier]? := by
  have hinsert : (c.registering call).entries
      = c.entries.insert call.identifier (.of call.kind call.range) := by
    cases call <;> rfl
  rw [hinsert, Std.TreeMap.getElem?_insert]
  simp only [compare_eq_iff_eq]

/-- A catalog whose entries are those of a registry. The registry knows kinds and the catalog
identifiers, so an identifier that is of no kind must have no entry. -/
def Mirrors (c : Catalog) (r : Registry) : Prop :=
  ∀ identifier, c.entries[identifier]?
    = (FilterKind.ofIdentifier? identifier).bind fun kind =>
        (r.versions kind).map (Entry.of kind)

theorem Mirrors.registering (h : c.Mirrors r) (call : Registration) :
    (c.registering call).Mirrors (r.registering call) := by
  intro identifier
  rw [getElem?_registering]
  by_cases hcall : call.identifier = identifier
  · rw [if_pos hcall, ← hcall, Registration.identifier, FilterKind.ofIdentifier?_identifier,
      Option.bind_some, Registry.versions_registering, if_pos rfl, Option.map_some]
  · rw [if_neg hcall, h identifier]
    cases hkind : FilterKind.ofIdentifier? identifier with
    | none => rfl
    | some kind =>
      have hother : kind ≠ call.kind := by
        rintro rfl
        exact hcall (FilterKind.identifier_of_ofIdentifier? hkind)
      rw [Option.bind_some, Option.bind_some, Registry.versions_registering, if_neg hother]

theorem mirrors_empty : empty.Mirrors .empty := by
  intro identifier
  have hnone : empty.entries[identifier]? = none := Std.TreeMap.getElem?_emptyc
  rw [hnone]
  cases FilterKind.ofIdentifier? identifier <;> rfl

/-! ## Any number of registrations -/

theorem registered_append (calls : List Registration) (call : Registration) :
    registered (calls ++ [call]) = (registered calls).registering call := by
  rw [registered, List.foldl_append]
  rfl

theorem mirrors_registered (calls : List Registration) :
    (registered calls).Mirrors (.registered calls) := by
  induction calls using List.reverseRecOn with
  | nil => exact mirrors_empty
  | append_singleton calls call ih =>
    have hregistry : Registry.registered (calls ++ [call])
        = (Registry.registered calls).registering call := by
      rw [Registry.registered, List.foldl_append]
      rfl
    rw [registered_append, hregistry]
    exact ih.registering call

/-- The entry of an identifier is that of the last registration which named it. -/
theorem getElem?_registered (calls : List Registration) (identifier : String) :
    (registered calls).entries[identifier]?
      = (calls.reverse.find? (·.identifier = identifier)).map fun call =>
          Entry.of call.kind call.range := by
  induction calls using List.reverseRecOn with
  | nil => exact Std.TreeMap.getElem?_emptyc
  | append_singleton calls call ih =>
    rw [registered_append, getElem?_registering, List.reverse_append, List.reverse_singleton,
      List.singleton_append]
    by_cases hcall : call.identifier = identifier
    · rw [if_pos hcall, List.find?_cons_of_pos (by simpa using hcall), Option.map_some]
    · rw [if_neg hcall, List.find?_cons_of_neg (by simpa using hcall), ih]

/-- The last registration of an identifier, seen in the list. -/
theorem find?_reverse_eq_some_iff {calls : List Registration} {call : Registration}
    {identifier : String} :
    calls.reverse.find? (·.identifier = identifier) = some call ↔
      ∃ before after, calls = before ++ call :: after ∧ call.identifier = identifier
        ∧ identifier ∉ after.map (·.identifier) := by
  rw [List.find?_eq_some_iff_append]
  constructor
  · rintro ⟨hcall, later, earlier, hcalls, hlater⟩
    refine ⟨earlier.reverse, later.reverse, ?_, of_decide_eq_true hcall, fun hmem => ?_⟩
    · rw [← List.reverse_reverse calls, hcalls, List.reverse_append, List.reverse_cons,
        List.append_assoc, List.singleton_append]
    · obtain ⟨other, hother, hname⟩ := List.mem_map.mp hmem
      have hne := hlater other (List.mem_reverse.mp hother)
      rw [hname] at hne
      simp at hne
  · rintro ⟨before, after, rfl, hcall, hafter⟩
    refine ⟨decide_eq_true hcall, after.reverse, before.reverse, by simp, fun other hother => ?_⟩
    have hne : other.identifier ≠ identifier := fun hname =>
      hafter (hname ▸ List.mem_map_of_mem (List.mem_reverse.mp hother))
    simpa using hne

/-! ## Answers -/

theorem mem_identifiers {identifier : String} :
    identifier ∈ c.identifiers ↔ c.entries[identifier]?.isSome := by
  rw [identifiers, Std.TreeMap.mem_keys, Std.TreeMap.mem_iff_isSome_getElem?]

theorem sortedLT_identifiers (c : Catalog) : c.identifiers.SortedLT := by
  have h := Std.TreeMap.ordered_keys (t := c.entries)
  exact (h.imp compare_lt_iff_lt.mp).sortedLT

theorem length_identifiers (c : Catalog) : c.identifiers.length = c.size :=
  Std.TreeMap.length_keys

/-- A catalog that gives the same answers as a registry. These are all questions that callers can
ask, so one can stand for the other. -/
structure Answers (c : Catalog) (r : Registry) : Prop where
  isSupported : ∀ identifier version, c.isSupported identifier version
    = r.isSupported identifier version
  create? : ∀ a, c.create? a = r.create? a
  displayName? : ∀ identifier, c.displayName? identifier = r.displayName? identifier
  identifiers : c.identifiers = r.identifiers
  size : c.size = r.size

namespace Mirrors

variable (h : c.Mirrors r)
include h

theorem construct_find? (identifier : String) (version : Int32) :
    (c.find? identifier version).map Entry.construct
      = (r.entry? identifier version).map fun kind a => .new (.ofAction kind a) := by
  rw [find?, h identifier, Registry.entry?]
  cases FilterKind.ofIdentifier? identifier with
  | none => rfl
  | some kind =>
    rw [Option.bind_some, Option.filter_some]
    cases r.versions kind with
    | none => rfl
    | some range =>
      have hrange : (Entry.of kind range).versions = range := rfl
      rw [Option.map_some, Option.filter_some, Option.any_some, hrange]
      cases range.holds version <;> rfl

theorem isSome_versions (kind : FilterKind) :
    kind.identifier ∈ c.identifiers ↔ (r.versions kind).isSome := by
  rw [mem_identifiers, h, FilterKind.ofIdentifier?_identifier, Option.bind_some, Option.isSome_map]

theorem identifiers_eq : c.identifiers = r.identifiers := by
  have hsorted : r.identifiers.SortedLT :=
    (FilterKind.sortedLT_identifiers.pairwise.sublist
      (List.filter_sublist.map FilterKind.identifier)).sortedLT
  refine (sortedLT_identifiers c).eq_of_mem_iff hsorted fun identifier => ?_
  rw [Registry.identifiers, List.mem_map]
  constructor
  · intro hmem
    have hentry := mem_identifiers.mp hmem
    rw [h] at hentry
    obtain ⟨entry, hentry⟩ := Option.isSome_iff_exists.mp hentry
    obtain ⟨kind, hkind, -⟩ := Option.bind_eq_some_iff.mp hentry
    obtain rfl := FilterKind.identifier_of_ofIdentifier? hkind
    exact ⟨kind, List.mem_filter.mpr ⟨kind.mem_all, (h.isSome_versions kind).mp hmem⟩, rfl⟩
  · rintro ⟨kind, hkind, rfl⟩
    exact (h.isSome_versions kind).mpr (List.mem_filter.mp hkind).2

theorem answers : c.Answers r where
  isSupported identifier version := by
    have hentry := congrArg Option.isSome (h.construct_find? identifier version)
    rwa [Option.isSome_map, Option.isSome_map] at hentry
  create? a := by
    have hentry := h.construct_find? a.identifier a.version
    have hcreate := congrArg (Option.map fun construct => construct a) hentry
    rwa [Option.map_map, Option.map_map] at hcreate
  displayName? identifier := by
    rw [displayName?, h identifier, Registry.displayName?, Registry.kind?]
    cases FilterKind.ofIdentifier? identifier with
    | none => rfl
    | some kind =>
      rw [Option.bind_some, Option.filter_some]
      cases r.versions kind <;> rfl
  identifiers := h.identifiers_eq
  size := by
    rw [← length_identifiers, Registry.size, h.identifiers_eq]

end Mirrors

/-! ## What registrations leave -/

/-- A catalog as a map in which the last registration of an identifier counts. A registration with
an empty range counts too: it takes away the support that an earlier one gave. -/
structure LastWins (c : Catalog) (calls : List Registration) : Prop where
  /-- The last registration of the identifier covers the version. -/
  isSupported : ∀ identifier version, c.isSupported identifier version ↔
    ∃ before call after, calls = before ++ call :: after ∧ call.identifier = identifier
      ∧ identifier ∉ after.map (·.identifier) ∧ call.range.holds version
  /-- A filter is made of every action that is supported, and of no other. -/
  isSome_create? : ∀ a, (c.create? a).isSome = c.isSupported a.identifier a.version
  /-- The filter is the one whose identifier the action has, with the settings of the action. -/
  create? : ∀ a f, c.create? a = some f →
    f.action.identifier = a.identifier ∧ f = .new (.ofAction f.kind a)
  /-- Identifiers are sorted, and none is there twice. -/
  sorted : c.identifiers.Pairwise (· < ·)
  mem_identifiers : ∀ identifier, identifier ∈ c.identifiers
    ↔ identifier ∈ calls.map (·.identifier)
  length_identifiers : c.identifiers.length = c.size
  size : c.size = (calls.map (·.identifier)).dedup.length

/-- Two catalogs that give the same answers for an identifier. It is what a registration of some
other identifier leaves alone. -/
structure AgreesAt (identifier : String) (c d : Catalog) : Prop where
  isSupported : ∀ version, c.isSupported identifier version = d.isSupported identifier version
  create? : ∀ a, a.identifier = identifier → c.create? a = d.create? a
  displayName? : c.displayName? identifier = d.displayName? identifier
  mem_identifiers : identifier ∈ c.identifiers ↔ identifier ∈ d.identifiers

theorem agreesAt_of_getElem? {d : Catalog} {identifier : String}
    (h : c.entries[identifier]? = d.entries[identifier]?) : AgreesAt identifier c d where
  isSupported version := by rw [isSupported, isSupported, find?, find?, h]
  create? a ha := by rw [create?, create?, find?, find?, ha, h]
  displayName? := by rw [displayName?, displayName?, h]
  mem_identifiers := by rw [Catalog.mem_identifiers, Catalog.mem_identifiers, h]

theorem isSupported_registered_iff {calls : List Registration} {identifier : String}
    {version : Int32} :
    (registered calls).isSupported identifier version ↔
      ∃ call, calls.reverse.find? (·.identifier = identifier) = some call
        ∧ call.range.holds version := by
  rw [isSupported, find?, getElem?_registered]
  cases calls.reverse.find? (·.identifier = identifier) with
  | none => simp
  | some call =>
    have hrange : (Entry.of call.kind call.range).versions = call.range := rfl
    rw [Option.map_some, Option.filter_some, hrange]
    cases hholds : call.range.holds version <;> simp [hholds]

theorem mem_identifiers_registered {calls : List Registration} {identifier : String} :
    identifier ∈ (registered calls).identifiers ↔ identifier ∈ calls.map (·.identifier) := by
  rw [mem_identifiers, getElem?_registered, Option.isSome_map, List.find?_isSome, List.mem_map]
  simp only [List.mem_reverse, decide_eq_true_eq]

theorem lastWins_registered (calls : List Registration) : (registered calls).LastWins calls where
  isSupported identifier version := by
    rw [isSupported_registered_iff]
    simp only [find?_reverse_eq_some_iff]
    constructor
    · rintro ⟨call, ⟨before, after, hcalls, hcall, hafter⟩, hholds⟩
      exact ⟨before, call, after, hcalls, hcall, hafter, hholds⟩
    · rintro ⟨before, call, after, hcalls, hcall, hafter, hholds⟩
      exact ⟨call, ⟨before, after, hcalls, hcall, hafter⟩, hholds⟩
  isSome_create? a := Option.isSome_map
  create? a f hf := by
    obtain ⟨entry, hentry, rfl⟩ := Option.map_eq_some_iff.mp hf
    have hget := (Option.filter_eq_some_iff.mp hentry).1
    rw [getElem?_registered] at hget
    obtain ⟨call, hcall, rfl⟩ := Option.map_eq_some_iff.mp hget
    have hkind : (Filter.new (.ofAction call.kind a)).kind = call.kind := by
      cases call.kind <;> rfl
    obtain ⟨-, -, -, hname, -⟩ := find?_reverse_eq_some_iff.mp hcall
    refine ⟨?_, ?_⟩
    · exact (congrArg FilterKind.identifier hkind).trans hname
    · exact congrArg (fun kind => Filter.new (.ofAction kind a)) hkind.symm
  sorted := (sortedLT_identifiers _).pairwise
  mem_identifiers _ := mem_identifiers_registered
  length_identifiers := length_identifiers _
  size := by
    have hperm : (registered calls).identifiers.Perm (calls.map (·.identifier)).dedup := by
      refine (List.perm_ext_iff_of_nodup (sortedLT_identifiers _).nodup (List.nodup_dedup _)).mpr
        fun identifier => ?_
      rw [mem_identifiers_registered, List.mem_dedup]
    exact (length_identifiers _).symm.trans hperm.length_eq

/-- Whatever is registered, in whatever order and with whatever ranges, the last registration of an
identifier counts, and it touches no other identifier. The registry gives the same answers. -/
theorem last_registration_counts (calls : List Registration) :
    (registered calls).LastWins calls
    ∧ (registered calls).Answers (.registered calls)
    ∧ ∀ (call : Registration) (identifier : String), identifier ≠ call.identifier →
        AgreesAt identifier (registered (calls ++ [call])) (registered calls) := by
  refine ⟨lastWins_registered calls, (mirrors_registered calls).answers, fun call identifier hne => ?_⟩
  refine agreesAt_of_getElem? ?_
  rw [registered_append, getElem?_registering, if_neg hne.symm]

/-- Contrast for all versions and then for two later ones; curves for no version at all. -/
def narrowed : List Registration :=
  [.present .contrast, .versions .curves ⟨5, 4⟩, .versions .contrast ⟨2, 3⟩]

theorem last_registration_counts_narrowed :
    "digikam:CurvesFilter" ≠ (Registration.versions .contrast ⟨2, 3⟩).identifier
      ∧ AgreesAt "digikam:CurvesFilter" (registered narrowed) (registered (narrowed.take 2))
      ∧ (registered narrowed).isSupported "digikam:BCGFilter" 3
      ∧ (registered narrowed).identifiers = ["digikam:BCGFilter", "digikam:CurvesFilter"]
      ∧ ¬(registered narrowed).isSupported "digikam:CurvesFilter" 5 := by
  have hne : "digikam:CurvesFilter" ≠ (Registration.versions .contrast ⟨2, 3⟩).identifier := by
    decide
  obtain ⟨hwins, hanswers, -⟩ := last_registration_counts narrowed
  refine ⟨hne, (last_registration_counts (narrowed.take 2)).2.2 (.versions .contrast ⟨2, 3⟩) _ hne,
    ?_, ?_, ?_⟩
  · exact (hwins.isSupported _ 3).mpr
      ⟨narrowed.take 2, .versions .contrast ⟨2, 3⟩, [], rfl, rfl, List.not_mem_nil, by decide⟩
  · rw [hanswers.identifiers]
    decide
  · rw [hanswers.isSupported]
    decide

end Catalog

end Darkroom
