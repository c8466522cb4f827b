import Darkroom.History.Replay
import Darkroom.Proofs.Action.RoundTrip
import Darkroom.Proofs.Filter.Parameters
import Darkroom.Proofs.Filter.Run

/-!
# A replay gives the recorded image

A chain of filters is recorded by running each on the target of the one before, with or without a
reference image, and by keeping the actions. If every action is reproducible, no run depended on its
reference: then a replay of the actions, also after they were stored, goes through the same images
as the runs did, and says so (`replay_record`).

The runner and the replay are different loops. They meet in `effect_of_finished`: where a run has a
target image, one step of the replay has the same image.
-/

namespace Darkroom

/-- One use of a filter: its settings, the reference beside the source, and whom it reports to. The
last two are not recorded, so a replay has to do without them. -/
structure Link where
  settings : FilterSettings
  reference : Option Image
  progress : Progress

namespace Link

def run (link : Link) (source : Image) : FilterRun :=
  (FilterRun.new (.new link.settings) source link.reference link.progress).run

/-- Runs a chain, each filter on the target of the one before. Returns the actions of the runs and
the last target, if every run is finished. -/
def record : Image → List Link → Option (History × Image)
  | image, [] => some ([], image)
  | image, link :: rest =>
    match (link.run image).target? with
    | none => none
    | some target => (record target rest).map fun r => ((link.run image).action :: r.1, r.2)

theorem record_cons {image last : Image} {link : Link} {rest : List Link} {h : History}
    (hrecord : record image (link :: rest) = some (h, last)) :
    ∃ target h', (link.run image).target? = some target ∧ record target rest = some (h', last)
      ∧ h = (link.run image).action :: h' := by
  rw [record] at hrecord
  cases htarget : (link.run image).target? with
  | none =>
      rw [htarget] at hrecord
      cases hrecord
  | some target =>
      rw [htarget] at hrecord
      obtain ⟨⟨h', last'⟩, hrest, heq⟩ := Option.map_eq_some_iff.mp hrecord
      cases heq
      exact ⟨target, h', rfl, hrest, rfl⟩

/-- Recorded actions are those of filters. -/
theorem mem_record : ∀ {links : List Link} {h : History} {base last : Image},
    record base links = some (h, last) → ∀ a ∈ h, ∃ f : Filter, a = f.action
  | [], h, base, last, hrecord, a, ha => by
      cases hrecord
      cases ha
  | link :: rest, h, base, last, hrecord, a, ha => by
      obtain ⟨target, h', -, hrest, rfl⟩ := record_cons hrecord
      rcases List.mem_cons.mp ha with rfl | ha
      · exact ⟨(link.run base).filter, rfl⟩
      · exact mem_record hrest a ha

end Link

namespace Replay

/-! ## Steps -/

/-- Where a run is finished and reproducible, the replay of its action has its target. -/
theorem effect_of_finished {link : Link} {source target : Image}
    (htarget : (link.run source).target? = some target)
    (hcategory : (link.run source).action.category = .reproducible) :
    effect .builtin source (link.run source).action = (.applied, none, target) := by
  obtain ⟨hnull, hfilter, q, happly⟩ := FilterRun.run_reproducible htarget hcategory
  have haction : (link.run source).action = (Filter.new link.settings).action :=
    congrArg Filter.action hfilter
  have hcreate := Registry.create?_action (.new link.settings)
  rw [← haction] at hcreate
  unfold effect
  simp only [hcreate, hcategory, hnull]
  rw [if_neg (by decide), if_neg (by decide)]
  have hagain : (Filter.new (Filter.new link.settings).settings).apply source none .start
    = .ok ⟨.new link.settings, target, q⟩ := happly
  rw [hagain]
  rfl

/-- A step whose action is applied without an issue. -/
theorem step_of_applied {r : Replay} {a : Action} {target : Image}
    (h : effect .builtin r.image a = (.applied, none, target)) :
    (step .builtin r a).2 = ⟨r.index + 1, target, r.applied + 1, r.issues⟩ := by
  rw [step, h]
  simp

/-- A replay that stands at the image on which a chain was recorded ends at its last image. The
induction is on the chain: the replay follows it from target to target. -/
theorem finish_record : ∀ {links : List Link} {h : History} {r : Replay} {last : Image},
    Link.record r.image links = some (h, last) → (∀ a ∈ h, a.category = .reproducible) →
      finish .builtin r h = ⟨r.index + h.length, last, r.applied + h.length, r.issues⟩
  | [], h, r, last, hrecord, _ => by
      cases hrecord
      rfl
  | link :: rest, h, r, last, hrecord, hcategory => by
      obtain ⟨target, h', htarget, hrest, rfl⟩ := Link.record_cons hrecord
      have heffect := effect_of_finished htarget (hcategory _ List.mem_cons_self)
      rw [finish, List.foldl_cons, step_of_applied heffect, ← finish,
        finish_record hrest fun a ha => hcategory a (List.mem_cons_of_mem _ ha)]
      simp only [List.length_cons]
      congr 1 <;> omega

end Replay

/-! ## The whole chain -/

theorem History.isReproducible_record {links : List Link} {h : History} {base last : Image}
    (hrecord : Link.record base links = some (h, last))
    (hcategory : ∀ a ∈ h, a.category = .reproducible) : h.isReproducible .builtin := by
  refine List.all_eq_true.mpr fun a ha => ?_
  obtain ⟨f, rfl⟩ := Link.mem_record hrecord a ha
  rw [Registry.isSupported_action, hcategory _ ha]
  rfl

/-- A replay of actions on an image that gives another image, with every action applied, no issues,
and the actions reproducible. -/
structure ReplaysTo (base : Image) (h : History) (last : Image) : Prop where
  image : (Replay.run .builtin base h).image = last
  applied : (Replay.run .builtin base h).applied = h.length
  issues : (Replay.run .builtin base h).issues = []
  reproducible : h.isReproducible .builtin

theorem replaysTo_record {links : List Link} {h : History} {base last : Image}
    (hrecord : Link.record base links = some (h, last))
    (hcategory : ∀ a ∈ h, a.category = .reproducible) : ReplaysTo base h last := by
  have hrun : Replay.run .builtin base h = ⟨h.length, last, h.length, []⟩ := by
    rw [Replay.run, Replay.finish_record (r := .start base) hrecord hcategory]
    simp only [Replay.start, Nat.zero_add]
  refine ⟨?_, ?_, ?_, History.isReproducible_record hrecord hcategory⟩ <;> rw [hrun]

/-- A chain that was recorded as reproducible is replayed exactly, and so is what is read back after
the actions were stored. -/
theorem replay_record {links : List Link} {h : History} {base last : Image}
    (hrecord : Link.record base links = some (h, last))
    (hcategory : ∀ a ∈ h, a.category = .reproducible) :
    ReplaysTo base h last ∧ ∃ stored, History.ofBytes (History.toBytes h) = .ok stored
      ∧ stored.length = h.length ∧ ReplaysTo base stored last := by
  have hreplay := replaysTo_record hrecord hcategory
  refine ⟨hreplay, h, History.ofBytes_toBytes fun a ha => ?_, rfl, hreplay⟩
  obtain ⟨f, rfl⟩ := Link.mem_record hrecord a ha
  exact f.distinctNames_action

def lightDark : Image :=
  ⟨2, 1, .eight, false, #[200, 200, 200, 255, 100, 100, 100, 255]⟩

def allWhite : Image :=
  ⟨2, 1, .eight, false, #[255, 255, 255, 255, 255, 255, 255, 255]⟩

/-- The pixels are stretched to the whole range. Then the dark one is repaired, observed and beside
a reference that is not used. The second filter works on what the first one has left. -/
def stretchAndRepair : List Link :=
  [⟨.normalize, none, .start⟩,
    ⟨.spotRepair ⟨.average, .twoDim, [⟨1, 0, 1, 1⟩]⟩, some lightDark, .observed none⟩]

theorem replay_record_lightDark :
    ∃ h, Link.record lightDark stretchAndRepair = some (h, allWhite)
      ∧ (∀ a ∈ h, a.category = .reproducible) ∧ ReplaysTo lightDark h allWhite
      ∧ ∃ stored, History.ofBytes (History.toBytes h) = .ok stored ∧ stored.length = h.length
        ∧ ReplaysTo lightDark stored allWhite := by
  have hlast : (Link.record lightDark stretchAndRepair).map (·.2) = some allWhite := by
    decide +kernel
  have hcategory : (Link.record lightDark stretchAndRepair).map
      (fun r => r.1.all (·.category = .reproducible)) = some true := by
    decide +kernel
  obtain ⟨⟨h, last⟩, hrecord, hsame⟩ := Option.map_eq_some_iff.mp hlast
  cases hsame
  rw [hrecord, Option.map_some, Option.some.injEq, List.all_eq_true] at hcategory
  have hall : ∀ a ∈ h, a.category = .reproducible := fun a ha => of_decide_eq_true (hcategory a ha)
  exact ⟨h, hrecord, hall, replay_record hrecord hall⟩

end Darkroom
