import Darkroom.History.Replay
import Darkroom.Proofs.Action.Equality
import Darkroom.Proofs.Filter.Parameters

/-!
# Actions that replay alike

A kind of filter reads a key if some value there changes the settings that it takes from an action.
These are the keys of a short list (`FilterKind.reads_iff`), and the settings depend on nothing else
(`FilterSettings.ofAction_congr`). So two actions that differ in the order of their parameters, in
the display name, or under keys that are not read, are rebuilt into the same filter
(`Action.Alike.create?_eq`), and one can stand for the other anywhere in a history
(`Replay.run_of_alike`).

Equality of actions is the finer of the two relations, with one exception: it takes zeros of
different signs for equal. So equal actions are alike unless a key that is read holds such zeros
(`Action.alike_or_oppositeZeros`). What equality is and what it is good for is put together in
`Action.EqualityLaws`.
-/

namespace Darkroom

/-! ## One kind -/

namespace FilterKind

/-- Some value under the key changes the settings. So a key is read if it can matter at all, in
whatever way the settings are taken from the parameters. -/
def Reads (kind : FilterKind) (key : String) : Prop :=
  ∃ (a : Action) (value : ParamValue),
    FilterSettings.ofAction kind (a.add key value) ≠ FilterSettings.ofAction kind a

/-- The keys that settings are taken from. They are listed apart from the settings, and compared
with what `Reads` says. -/
def keys : FilterKind → List String
  | contrast => ["channel", "brightness", "contrast", "gamma"]
  | whiteBalance =>
    ["black", "expositionMain", "expositionFine", "temperature", "green", "dark", "gamma",
      "saturation", "clipSaturation", "overExposureIndicator", "preventClipping"]
  | curves => "curveType" :: "curveBitDepth" :: Channel.all.map Curves.Settings.key
  | spotRepair => ["interpolationMethod", "direction", "hotPixels"]
  | autoExposure | autoLevels | equalize | normalize => []

end FilterKind

theorem Action.get_congr {α : Type} [OfParam α] {a b : Action} {key : String}
    (h : a.value? key = b.value? key) (default : α) : a.get key default = b.get key default := by
  rw [get, get, h]

/-- Settings depend on the values of the keys alone. -/
theorem FilterSettings.ofAction_congr {kind : FilterKind} {a b : Action}
    (h : ∀ key ∈ kind.keys, a.value? key = b.value? key) : ofAction kind a = ofAction kind b := by
  cases kind with
  | contrast =>
    refine congrArg contrast ?_
    have hchannel : a.get "channel" (0 : Int64) = b.get "channel" 0 :=
      Action.get_congr (h _ (by decide)) 0
    rw [Contrast.ofAction, Contrast.ofAction, hchannel]
    congr 1 <;> exact Action.get_congr (h _ (by decide)) _
  | whiteBalance =>
    refine congrArg whiteBalance ?_
    rw [WhiteBalance.ofAction, WhiteBalance.ofAction]
    congr 1 <;> exact Action.get_congr (h _ (by decide)) _
  | curves =>
    refine congrArg curves ?_
    have hkey : ∀ channel, Curves.Settings.key channel ∈ FilterKind.curves.keys := by
      intro channel
      cases channel <;> decide
    have hlist : (fun channel => a.get (Curves.Settings.key channel) [])
        = fun channel => b.get (Curves.Settings.key channel) ([] : List Point) :=
      funext fun channel => Action.get_congr (h _ (hkey channel)) _
    rw [Curves.Settings.ofAction, Curves.Settings.ofAction, hlist,
      Action.get_congr (h "curveType" (by decide)),
      Action.get_congr (h "curveBitDepth" (by decide))]
  | spotRepair =>
    refine congrArg spotRepair ?_
    rw [SpotRepair.ofAction, SpotRepair.ofAction,
      Action.get_congr (h "interpolationMethod" (by decide)),
      Action.get_congr (h "direction" (by decide)),
      Action.get_congr (h "hotPixels" (by decide))]
  | autoExposure | autoLevels | equalize | normalize => rfl

namespace FilterKind

/-- Values of which one is not the default, whatever the key. To show that a key is read it is
enough to set these under it and to look at the settings. -/
def probes : List ParamValue :=
  [.int 0, .int 1, .int 16, .points [⟨0, 0⟩], .rects [⟨0, 0, 1, 1⟩]]

theorem reads_of_mem {kind : FilterKind} {key : String} (h : key ∈ kind.keys) : kind.Reads key := by
  have hprobe : ∀ key ∈ kind.keys, ∃ value ∈ probes,
      FilterSettings.ofAction kind ((Action.new "" 0).add key value)
        ≠ FilterSettings.ofAction kind (.new "" 0) := by
    cases kind <;> decide +kernel
  obtain ⟨value, -, hvalue⟩ := hprobe key h
  exact ⟨_, value, hvalue⟩

/-- The list of keys is complete and has no key in vain. -/
theorem reads_iff {kind : FilterKind} {key : String} : kind.Reads key ↔ key ∈ kind.keys := by
  refine ⟨fun ⟨a, value, hvalue⟩ => ?_, reads_of_mem⟩
  by_contra hkey
  refine hvalue (FilterSettings.ofAction_congr fun other hother => ?_)
  have hne : key ≠ other := fun heq => hkey (heq ▸ hother)
  rw [Action.value?_add, if_neg hne]

end FilterKind

/-- Every action of a known filter in its version is rebuilt. -/
theorem Registry.create?_builtin {a : Action} {kind : FilterKind}
    (hidentifier : a.identifier = kind.identifier) (hversion : a.version = FilterKind.version) :
    builtin.create? a = some (.new (.ofAction kind a)) := by
  rw [create?, hidentifier, hversion, entry?_builtin, Option.map_some]

/-! ## Two actions -/

namespace Action

/-- The filter that the action names reads the key. An action of an unknown filter has no such keys,
so its parameters do not matter for any effect. -/
def Reads (a : Action) (key : String) : Prop :=
  ∃ kind, FilterKind.ofIdentifier? a.identifier = some kind ∧ kind.Reads key

/-- The actions differ at most in the order of their parameters, in the display name, and in
parameters under keys that the filter does not read. -/
structure Alike (a b : Action) : Prop where
  identifier : a.identifier = b.identifier
  version : a.version = b.version
  category : a.category = b.category
  parameters : ∀ p : Parameter, a.Reads p.name → (p ∈ a.parameters ↔ p ∈ b.parameters)

/-- Equal actions are alike, unless a key that is read holds zeros of different signs. -/
theorem alike_or_oppositeZeros {a b : Action} (ha : a.DistinctNames) (hb : b.DistinctNames)
    (h : a.sameAs b) :
    a.Alike b ∨ ∃ key v w, a.Reads key ∧ a.value? key = some v ∧ b.value? key = some w
      ∧ v.OppositeZeros w := by
  obtain ⟨hidentifier, hversion, hcategory, hagree⟩ := (sameAs_iff ha hb).mp h
  by_cases hzeros : ∃ key v w, a.Reads key ∧ a.value? key = some v ∧ b.value? key = some w
      ∧ v.OppositeZeros w
  · exact .inr hzeros
  · refine .inl ⟨hidentifier, hversion, hcategory, fun p hreads => ?_⟩
    have hvalue := (hagree p.name).eq_or_oppositeZeros.resolve_right
      fun ⟨v, w, hv, hw, hopposite⟩ => hzeros ⟨p.name, v, w, hreads, hv, hw, hopposite⟩
    rw [← value?_eq_some_iff ha, ← value?_eq_some_iff hb, hvalue]

section Alike

variable {a b : Action} (ha : a.DistinctNames) (hb : b.DistinctNames) (h : a.Alike b)
include ha hb h

theorem Alike.value?_eq {key : String} (hreads : a.Reads key) : a.value? key = b.value? key := by
  refine Option.ext fun v => ?_
  rw [value?_eq_some_iff ha, value?_eq_some_iff hb]
  exact h.parameters ⟨key, v⟩ hreads

theorem Alike.ofAction_eq {kind : FilterKind}
    (hkind : FilterKind.ofIdentifier? a.identifier = some kind) :
    FilterSettings.ofAction kind a = .ofAction kind b :=
  FilterSettings.ofAction_congr fun _ hkey =>
    h.value?_eq ha hb ⟨kind, hkind, FilterKind.reads_iff.mpr hkey⟩

/-- Actions that are alike are rebuilt into the same filter. -/
theorem Alike.create?_eq (registry : Registry) : registry.create? a = registry.create? b := by
  have hentry : registry.entry? a.identifier a.version = registry.entry? b.identifier b.version := by
    rw [h.identifier, h.version]
  rw [Registry.create?, Registry.create?, ← hentry]
  refine Option.map_congr fun kind hkind => ?_
  have hkind := (Option.filter_eq_some_iff.mp hkind).1
  rw [h.ofAction_eq ha hb hkind]

theorem Alike.effect_eq (registry : Registry) (image : Image) :
    Replay.effect registry image a = Replay.effect registry image b := by
  rw [Replay.effect, Replay.effect, h.create?_eq ha hb, h.category]

theorem Alike.step_eq (registry : Registry) (r : Replay) :
    Replay.step registry r a = Replay.step registry r b := by
  rw [Replay.step, Replay.step, h.effect_eq ha hb, h.identifier, h.version]

/-- One can stand for the other anywhere in a history. -/
theorem Alike.run_eq (registry : Registry) (base : Image) (before after : History) :
    Replay.run registry base (before ++ a :: after)
      = Replay.run registry base (before ++ b :: after) := by
  rw [Replay.run, Replay.run, Replay.finish, Replay.finish, List.foldl_append, List.foldl_append,
    List.foldl_cons, List.foldl_cons, h.step_eq ha hb]

end Alike

end Action

/-- Histories whose actions are alike, one by one, replay alike. -/
theorem Replay.run_of_alike {registry : Registry} {base : Image} {h h' : History}
    (hactions : List.Forall₂ (fun a b => a.DistinctNames ∧ b.DistinctNames ∧ a.Alike b) h h') :
    run registry base h = run registry base h' := by
  suffices hfinish : ∀ r, finish registry r h = finish registry r h' from hfinish (start base)
  induction hactions with
  | nil =>
    intro r
    rfl
  | cons hab _ ih =>
    intro r
    obtain ⟨ha, hb, halike⟩ := hab
    rw [finish, List.foldl_cons, ← finish, halike.step_eq ha hb, ih]
    rfl

namespace Action

/-! ## The laws of equality -/

/-- What equality of actions is, and what it is good for. It is symmetric and transitive, and reflexive
unless an action holds NaN; it asks for the same filter, version and category and for equal values under
every key, whatever the order of the parameters and the display name. Actions that are alike make the same
filter, have the same effect on every image, and can stand for each other in every replay; equal actions are
alike unless a key that is read holds zeros of different signs. So that this is not empty, every action of a
known filter in its version is rebuilt, and the keys that the filter reads are those of a list. -/
structure EqualityLaws (a b c : Action) : Prop where
  self_iff : a.sameAs a ↔ ∀ p ∈ a.parameters, ∀ x ∈ p.value.double?, x.isNaN = false
  symm : a.sameAs b → b.sameAs a
  trans : a.sameAs b → b.sameAs c → a.sameAs c
  iff_agree : a.sameAs b
    ↔ a.identifier = b.identifier ∧ a.version = b.version ∧ a.category = b.category
      ∧ ∀ key, Agree (a.value? key) (b.value? key)
  reordered : ∀ (name : Option String) (ps : List Parameter), ps.Perm a.parameters →
    (sameAs { a with displayName := name, parameters := ps } b ↔ a.sameAs b)
  alike : a.sameAs b → a.Alike b ∨ ∃ key v w, a.Reads key ∧ a.value? key = some v
    ∧ b.value? key = some w ∧ v.OppositeZeros w
  rebuilt : ∀ kind : FilterKind, a.identifier = kind.identifier → a.version = FilterKind.version →
    Registry.builtin.create? a = some (.new (.ofAction kind a))
  reads_iff : ∀ (kind : FilterKind) (key : String), kind.Reads key ↔ key ∈ kind.keys
  same_filter : a.Alike b → ∀ registry : Registry, registry.create? a = registry.create? b
  same_effect : a.Alike b → ∀ (registry : Registry) (image : Image),
    Replay.effect registry image a = Replay.effect registry image b
  same_replay : a.Alike b → ∀ (registry : Registry) (base : Image) (before after : History),
    Replay.run registry base (before ++ a :: after) = Replay.run registry base (before ++ b :: after)

/-- Actions that have no name twice obey these laws. -/
theorem equality_congruence {a b c : Action} (ha : a.DistinctNames) (hb : b.DistinctNames)
    (hc : c.DistinctNames) : EqualityLaws a b c where
  self_iff := sameAs_self_iff ha
  symm := sameAs_symm ha hb
  trans := sameAs_trans ha hb hc
  iff_agree := sameAs_iff ha hb
  reordered name _ hps := sameAs_reordered hps name
  alike := alike_or_oppositeZeros ha hb
  rebuilt _ := Registry.create?_builtin
  reads_iff _ _ := FilterKind.reads_iff
  same_filter h := h.create?_eq ha hb
  same_effect h := h.effect_eq ha hb
  same_replay h := h.run_eq ha hb

def brighter : Action :=
  ((Action.new "digikam:BCGFilter" 1).add "brightness" (.double 0.25)).add "contrast" (.double 2)

def reordered : Action :=
  { brighter with displayName := some "Brighter", parameters := brighter.parameters.reverse }

/-- The same with a note that no filter reads. -/
def noted : Action :=
  reordered.add "note" (.string "from the second session")

theorem mem_noted {p : Parameter} (hname : p.name ≠ "note") :
    p ∈ noted.parameters ↔ p ∈ brighter.parameters := by
  have hnoted : noted.parameters
      = brighter.parameters.reverse ++ [⟨"note", .string "from the second session"⟩] := rfl
  have hp : p ≠ ⟨"note", .string "from the second session"⟩ := fun h => hname (h ▸ rfl)
  rw [hnoted, List.mem_append, List.mem_reverse, List.mem_singleton, or_iff_left hp]

theorem equality_congruence_brighter :
    brighter.DistinctNames ∧ reordered.DistinctNames ∧ noted.DistinctNames
      ∧ brighter.sameAs brighter ∧ reordered.sameAs brighter ∧ ¬brighter.sameAs noted
      ∧ Registry.builtin.create? brighter = Registry.builtin.create? noted
      ∧ Registry.builtin.create? brighter
        = some (.new (.contrast ⟨.luminosity, 0.25, 2, 1⟩)) := by
  have hbrighter : brighter.DistinctNames := by decide
  have hreordered : reordered.DistinctNames := by decide
  have hnoted : noted.DistinctNames := by decide
  have hself := equality_congruence hbrighter hbrighter hbrighter
  have hlaws := equality_congruence hbrighter hnoted hreordered
  have hsame : brighter.sameAs brighter := hself.self_iff.mpr (by decide +kernel)
  have hnote : ¬brighter.sameAs noted := fun h => nomatch (hlaws.iff_agree.mp h).2.2.2 "note"
  have halike : brighter.Alike noted := by
    refine ⟨rfl, rfl, rfl, fun p ⟨kind, hkind, hreads⟩ => (mem_noted ?_).symm⟩
    obtain rfl : FilterKind.contrast = kind := Option.some.inj hkind
    rintro hname
    rw [hname, FilterKind.reads_iff] at hreads
    exact absurd hreads (by decide)
  exact ⟨hbrighter, hreordered, hnoted, hsame,
    (hself.reordered _ _ (List.reverse_perm brighter.parameters)).mpr hsame, hnote,
    hlaws.same_filter halike .builtin, hlaws.rebuilt .contrast rfl rfl⟩

end Action

end Darkroom
