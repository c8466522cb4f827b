import Mathlib.Logic.Relation
import Darkroom.Filter.Watched
import Darkroom.Proofs.Filter.Plan
import Darkroom.Proofs.Image.RowSchedules

/-!
# A run comes to its end

By steps of its own a run gets from any stage to rest (`exists_rest`), whoever has asked for
cancellation on the way. A call that nobody interferes with does what `FilterRun.run` does
(`call_leads_run`).
-/

namespace Darkroom

namespace WatchedRun

/-- One step of the run itself, or of the task of a row. The other moves are those of callers, who
may stay away for ever. -/
def Proceeds (w w' : WatchedRun) : Prop :=
  w' = w.move .go ∨ ∃ y, w' = w.move (.row y)

abbrev Leads : WatchedRun → WatchedRun → Prop :=
  Relation.ReflTransGen Proceeds

theorem leads_advance {r : FilterRun} {published : RunState} {stage : RunStage} :
    Leads ⟨r, published, stage, none⟩ (WatchedRun.mk r published stage none).advance :=
  .single (.inl rfl)

theorem leads_of_advance {r : FilterRun} {published : RunState} {stage : RunStage}
    {w : WatchedRun} (h : (WatchedRun.mk r published stage none).advance = w) :
    Leads ⟨r, published, stage, none⟩ w :=
  h ▸ leads_advance

/-! ## To rest from any stage -/

/-- The run can get to rest from a stage, whatever the record. Stages are taken from the last one
backward, each by its step into stages of which this is known. -/
def Ends (stage : RunStage) : Prop :=
  ∀ (r : FilterRun) (published : RunState) (telling : Option Nat),
    ∃ w, Leads ⟨r, published, stage, telling⟩ w ∧ w.stage = .resting

/-- What is to be told is told first. -/
theorem ends_of_silent {stage : RunStage}
    (h : ∀ (r : FilterRun) (published : RunState),
      ∃ w, Leads ⟨r, published, stage, none⟩ w ∧ w.stage = .resting) : Ends stage := by
  intro r published telling
  cases telling with
  | none => exact h r published
  | some percent =>
      obtain ⟨w, hleads, hw⟩ := h { r with progress := r.progress.deliver percent } published
      exact ⟨w, .head (.inl rfl) hleads, hw⟩

theorem ends_of_advance {stage : RunStage}
    (h : ∀ (r : FilterRun) (published : RunState),
      Ends (WatchedRun.mk r published stage none).advance.stage) : Ends stage := by
  refine ends_of_silent fun r published => ?_
  obtain ⟨w, hleads, hw⟩ := h r published (WatchedRun.mk r published stage none).advance.record
    (WatchedRun.mk r published stage none).advance.published
    (WatchedRun.mk r published stage none).advance.telling
  exact ⟨w, leads_advance.trans hleads, hw⟩

theorem ends_resting : Ends .resting :=
  fun r published telling => ⟨⟨r, published, .resting, telling⟩, .refl, rfl⟩

theorem ends_entering {state : RunState} (hstate : state ≠ .running) : Ends (.entering state) := by
  refine ends_of_advance fun r published => ?_
  rw [advance]
  dsimp only
  rw [if_neg hstate]
  exact ends_resting

theorem ends_publishing {state : RunState} (hstate : state ≠ .running) :
    Ends (.publishing state) :=
  ends_of_advance fun _ _ => ends_entering hstate

theorem ends_closing : Ends .closing :=
  ends_of_advance fun _ _ => ends_publishing (by rintro ⟨⟩)

theorem ends_checking : Ends .checking := by
  refine ends_of_advance fun r published => ?_
  rw [advance]
  dsimp only
  split
  · exact ends_closing
  · exact ends_publishing (by rintro ⟨⟩)

section

variable {repair : SpotRepair} {image : Image} {done : Nat} {rect : Rect} {rest : List Rect}

theorem ends_patching_of (h : ∀ image done, Ends (.spots repair image done rest)) :
    Ends (.patching repair image done rect rest) := by
  refine ends_of_advance fun r published => ?_
  rw [advance]
  dsimp only
  split
  · exact h image (done + 1)
  · exact h _ (done + 1)

theorem ends_spots : Ends (.spots repair image done rest) := by
  induction rest generalizing image done with
  | nil => exact ends_of_advance fun _ _ => ends_checking
  | cons rect rest ih =>
      refine ends_of_advance fun r published => ?_
      rw [advance]
      dsimp only
      split
      · exact ends_patching_of fun _ _ => ih
      · exact ends_checking

end

theorem ends_rows (pool : Image.RowPool) : Ends (.rows pool) := by
  induction hleft : pool.left using Nat.strongRecOn generalizing pool with
  | ind left ih =>
      refine ends_of_silent fun r published => ?_
      cases hdone : pool.isDone with
      | true =>
          have hstored : (WatchedRun.mk r published (.rows pool) none).advance
              = (WatchedRun.mk r published (.rows pool) none).store (pool.image r.source) := by
            rw [advance]
            dsimp only
            rw [if_pos hdone]
          obtain ⟨w, hleads, hw⟩ := ends_checking
            { r with destination := pool.image r.source } published none
          exact ⟨w, .head (.inl hstored.symm) hleads, hw⟩
      | false =>
          obtain ⟨y, hy⟩ := Image.RowPool.exists_left_step_lt hdone r.progress
          obtain ⟨w, hleads, hw⟩ := ih _ (hleft ▸ hy) (pool.step r.progress y).1 rfl
            { r with progress := (pool.step r.progress y).2 } published none
          exact ⟨w, .head (.inr ⟨y, rfl⟩) hleads, hw⟩

theorem ends_reporting {reports : List Nat} {work : Work} : Ends (.reporting reports work) := by
  induction reports with
  | nil =>
      refine ends_of_advance fun r published => ?_
      cases work with
      | rows band op => exact ends_rows _
      | spots repair => exact ends_spots
  | cons percent reports ih => exact ends_of_advance fun _ _ => ih

theorem ends_admitting : Ends .admitting := by
  refine ends_of_advance fun r published => ?_
  rw [advance]
  dsimp only
  split
  · split
    · exact ends_publishing (by rintro ⟨⟩)
    · exact ends_reporting
  · exact ends_publishing (by rintro ⟨⟩)

theorem ends_examining : Ends .examining := by
  refine ends_of_advance fun r published => ?_
  rw [advance]
  dsimp only
  split
  · exact ends_publishing (by rintro ⟨⟩)
  · exact ends_admitting

theorem ends_opening : Ends .opening :=
  ends_of_advance fun _ _ => ends_examining

/-- From any stage a run can get to rest. -/
theorem exists_rest (w : WatchedRun) : ∃ w', Leads w w' ∧ w'.stage = .resting := by
  have hends : Ends w.stage := by
    have hentering : ∀ state, Ends (.entering state) := by
      intro state
      by_cases hstate : state = .running
      · subst hstate
        exact ends_of_advance fun _ _ => ends_opening
      · exact ends_entering hstate
    cases w.stage with
    | resting => exact ends_resting
    | publishing state => exact ends_of_advance fun _ _ => hentering state
    | entering state => exact hentering state
    | opening => exact ends_opening
    | examining => exact ends_examining
    | admitting => exact ends_admitting
    | reporting => exact ends_reporting
    | rows pool => exact ends_rows pool
    | spots => exact ends_spots
    | patching => exact ends_patching_of fun _ _ => ends_spots
    | checking => exact ends_checking
    | closing => exact ends_closing
  exact hends w.record w.published w.telling

/-! ## A call that nobody interferes with -/

section

variable {r : FilterRun} {published : RunState}

theorem leads_report {stage next : RunStage} {percent : Nat}
    (h : (WatchedRun.mk r published stage none).advance
      = ((WatchedRun.mk r published stage none).report percent).goTo next) :
    Leads ⟨r, published, stage, none⟩
      ⟨{ r with progress := r.progress.post percent }, published, next, none⟩ := by
  have hleads : Leads ⟨r, published, stage, none⟩
      (((WatchedRun.mk r published stage none).report percent).goTo next) :=
    h ▸ leads_advance
  rw [Progress.post_eq_announce]
  rw [report] at hleads
  cases hreport : r.progress.announce percent with
  | mk raised told =>
      simp only [hreport] at hleads
      cases told with
      | none => exact hleads
      | some v => exact hleads.tail (.inl rfl)

theorem leads_reporting {reports : List Nat} {work : Work} :
    Leads ⟨r, published, .reporting reports work, none⟩
      ⟨{ r with progress := reports.foldl Progress.post r.progress }, published,
        begin r.source work, none⟩ := by
  induction reports generalizing r with
  | nil => exact leads_advance
  | cons percent reports ih => exact (leads_report rfl).trans ih

theorem leads_rows {pool : Image.RowPool} (turns : List Nat) :
    Leads ⟨r, published, .rows pool, none⟩
      ⟨{ r with progress := (Image.RowPool.run (pool, r.progress) (turns.map .row)).2 }, published,
        .rows (Image.RowPool.run (pool, r.progress) (turns.map .row)).1, none⟩ := by
  induction turns generalizing r pool with
  | nil => exact .refl
  | cons y turns ih =>
      refine .head (.inr ⟨y, rfl⟩) ?_
      exact ih (r := { r with progress := (pool.step r.progress y).2 })

theorem leads_spots {repair : SpotRepair} {image : Image} {done : Nat} {rest : List Rect}
    (hrest : rest ≠ [] → repair.spots.length ≠ 0) :
    let after := Repair.all repair.interpolation repair.direction repair.spots.length image
      r.progress done rest
    Leads ⟨r, published, .spots repair image done rest, none⟩
      ⟨{ r with destination := after.1, progress := after.2 }, published, .checking, none⟩ := by
  induction rest generalizing r image done with
  | nil => exact leads_advance
  | cons rect rest ih =>
      have hcount := hrest (List.cons_ne_nil _ _)
      dsimp only
      rw [Repair.all_cons]
      by_cases hrunning : r.progress.isRunning
      · have hpatch : Leads ⟨r, published, .spots repair image done (rect :: rest), none⟩
            ⟨r, published, .patching repair image done rect rest, none⟩ := by
          refine leads_of_advance ?_
          rw [advance]
          dsimp only
          rw [if_pos hrunning]
          rfl
        rw [if_pos hrunning]
        refine hpatch.trans ?_
        cases hspot : Repair.spot? image rect with
        | none =>
            have hskip : Leads ⟨r, published, .patching repair image done rect rest, none⟩
                ⟨r, published, .spots repair image (done + 1) rest, none⟩ := by
              refine leads_of_advance ?_
              rw [advance]
              simp only [hspot]
              rfl
            exact hskip.trans (ih fun _ => hcount)
        | some s =>
            dsimp only
            rw [Progress.postFraction, if_neg hcount]
            refine Relation.ReflTransGen.trans (leads_report ?_) (ih fun _ => hcount)
            rw [advance]
            simp only [hspot]
      · rw [if_neg hrunning]
        refine leads_of_advance ?_
        rw [advance]
        dsimp only
        rw [if_neg hrunning]
        rfl

theorem leads_work {work : Work} (hnull : r.source.isNull = false) :
    Leads ⟨r, published, begin r.source work, none⟩
      ⟨{ r with
          destination := (work.run r.source r.progress).1
          progress := (work.run r.source r.progress).2 }, published, .checking, none⟩ := by
  cases work with
  | rows band op =>
      obtain ⟨hdone, hresult⟩ := Image.RowPool.run_inOrder hnull band op r.progress
      refine (leads_rows (Image.RowPool.inOrder 0 r.source.height.toNat)).trans ?_
      rw [Work.run, ← hresult]
      refine leads_of_advance ?_
      rw [advance]
      dsimp only
      rw [if_pos hdone]
      rfl
  | spots repair =>
      exact leads_spots fun hne hzero => hne (List.length_eq_zero_iff.mp hzero)

theorem leads_enter {state : RunState} (hstate : state ≠ .running) :
    Leads ⟨r, published, .publishing state, none⟩
      ⟨r.enter state, (r.enter state).state, .resting, none⟩ := by
  refine leads_advance.tail (.inl ?_)
  rw [move]
  dsimp only [advance]
  rw [if_neg hstate]
  rfl

/-- What is left to do when the filter has returned. -/
theorem leads_conclude :
    Leads ⟨r, published, .checking, none⟩
      ⟨r.conclude ⟨r.filter, r.destination, r.progress⟩,
        (r.conclude ⟨r.filter, r.destination, r.progress⟩).state, .resting, none⟩ := by
  rw [FilterRun.conclude]
  refine .head (.inl rfl) ?_
  rw [move]
  dsimp only [advance, goTo]
  by_cases hrunning : r.progress.isRunning
  · rw [if_pos hrunning, if_pos hrunning]
    exact (leads_report rfl).trans (leads_enter (by rintro ⟨⟩))
  · rw [if_neg hrunning, if_neg hrunning]
    exact leads_enter (by rintro ⟨⟩)

theorem leads_execute : Leads ⟨r, published, .examining, none⟩
    ⟨r.execute, r.execute.state, .resting, none⟩ := by
  refine .head (.inl rfl) ?_
  rw [move]
  dsimp only [advance]
  rw [FilterRun.execute]
  cases hfault : r.fault? with
  | some e => exact leads_enter (by rintro ⟨⟩)
  | none =>
      refine .head (.inl rfl) ?_
      rw [move]
      dsimp only [advance, goTo]
      by_cases hrunning : r.progress.isRunning
      · rw [if_pos hrunning, if_pos hrunning, Filter.apply_eq_plan]
        cases hplan : r.filter.plan r.source r.reference with
        | error e => exact leads_enter (by rintro ⟨⟩)
        | ok plan =>
            have hnull := (FilterRun.measured_of_fault? hfault).1
            refine leads_reporting.trans (.trans (leads_work ?_) leads_conclude)
            exact hnull
      · rw [if_neg hrunning, if_neg hrunning]
        exact leads_enter (by rintro ⟨⟩)

/-- A call that nobody interferes with does what `FilterRun.run` does. -/
theorem call_leads_run (f : Filter) (source : Image) (reference : Option Image) (p : Progress) :
    let r := (FilterRun.new f source reference p).run
    Leads ((new f source reference p).move .call) ⟨r, r.state, .resting, none⟩ := by
  intro r
  refine .head (.inl rfl) (.head (.inl rfl) ?_)
  exact (leads_report rfl).trans leads_execute

end

end WatchedRun

end Darkroom
