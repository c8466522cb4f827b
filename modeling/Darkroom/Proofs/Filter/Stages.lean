import Darkroom.Filter.Watched
import Darkroom.Proofs.Filter.Plan
import Darkroom.Proofs.Image.RowPool

/-!
# What is known of a run in each stage

What is known of a watched run between two moves depends on the stage that it is in (`Fits`), and
every move keeps it (`Sound.move`). As long as the run has still to look at the flag, cancellation
was asked for in time exactly when the flag is set; after that the flag says nothing any more, and
what was decided is what the run will end in.
-/

namespace Darkroom

/-- A stage in which nothing is left to tell the observer. In the others a percentage may still wait
to be told. -/
def RunStage.isQuiet : RunStage → Bool
  | resting | entering _ => true
  | _ => false

namespace WatchedRun

/-! ## What is known in a stage -/

section

variable (f : Filter) (source : Image) (reference : Option Image) (asked : Prop)

/-- What is known of a run that has not begun to filter. Whether cancellation was asked for in time
is still the same as whether the flag is set. -/
structure Waiting (r : FilterRun) (state : RunState) : Prop where
  state : r.state = state
  filter : r.filter = f
  asked : asked ↔ r.progress.cancelled

/-- What is known of a run that is filtering. The plan was made from the source and the reference,
and the filter may have been changed by it, as one that measures keeps its findings. -/
structure Filtering (plan : Plan) (r : FilterRun) : Prop where
  state : r.state = .running
  fault : r.fault? = none
  planned : f.plan source reference = .ok plan
  filter : r.filter = plan.filter
  asked : asked ↔ r.progress.cancelled

/-- What a run ends in, when it has looked at all that decides it. The order of the cases is that of
the checks: the images first, then the flag, and then the work. -/
def Decided (r : FilterRun) : RunState → Prop
  | .idle | .running => False
  | .failed e => r.fault? = some e
  | .cancelled => r.fault? = none ∧ asked
  | .finished => r.fault? = none ∧ ¬asked
    ∧ ∃ plan, f.plan source reference = .ok plan ∧ r.filter = plan.filter
      ∧ r.destination = plan.work.result source

/-- What is known of the record and of the published state in each stage. The published state is
changed by a stage of its own, ahead of the record; that is the only moment at which they differ. -/
inductive Fits (r : FilterRun) : RunState → RunStage → Prop where
  | idle : Waiting f asked r .idle → Fits r .idle .resting
  | called : Waiting f asked r .idle → Fits r .idle (.publishing .running)
  | begun : Waiting f asked r .idle → Fits r .running (.entering .running)
  | opening : Waiting f asked r .running → Fits r .running .opening
  | examining : Waiting f asked r .running → Fits r .running .examining
  | admitting : Waiting f asked r .running → r.fault? = none → Fits r .running .admitting
  | reporting {plan : Plan} {rest : List Nat} : Filtering f source reference asked plan r →
      Fits r .running (.reporting rest plan.work)
  | rows {plan : Plan} {band : Image.Band} {op : Image.RowOp} {p : Progress}
      {pool : Image.RowPool} : Filtering f source reference asked plan r →
      plan.work = .rows band op → Image.RowPool.Paced source band op p pool r.progress →
      Fits r .running (.rows pool)
  | spots {plan : Plan} {repair : SpotRepair} {image : Image} {done : Nat} {rest : List Rect} :
      Filtering f source reference asked plan r → plan.work = .spots repair →
      (r.progress.isRunning →
        Repair.everySpot repair.interpolation repair.direction image rest
          = plan.work.result source) →
      Fits r .running (.spots repair image done rest)
  | patching {plan : Plan} {repair : SpotRepair} {image : Image} {done : Nat} {rect : Rect}
      {rest : List Rect} :
      Filtering f source reference asked plan r → plan.work = .spots repair →
      (r.progress.isRunning →
        Repair.everySpot repair.interpolation repair.direction image (rect :: rest)
          = plan.work.result source) →
      Fits r .running (.patching repair image done rect rest)
  | checking {plan : Plan} : Filtering f source reference asked plan r →
      (r.progress.isRunning → r.destination = plan.work.result source) →
      Fits r .running .checking
  | closing : r.state = .running → Decided f source reference asked r .finished →
      Fits r .running .closing
  | decided {state : RunState} : r.state = .running → Decided f source reference asked r state →
      (state = .finished → r.progress.value = 100) → Fits r .running (.publishing state)
  | published {state : RunState} : r.state = .running → Decided f source reference asked r state →
      (state = .finished → r.progress.value = 100) → Fits r state (.entering state)
  | ended : Decided f source reference asked r r.state →
      (r.state = .finished → r.progress.value = 100) → Fits r r.state .resting

/-- What is known of a watched run. It holds of a new run and is kept by all moves, and everything
said about schedules is read off it. -/
structure Sound (w : WatchedRun) : Prop where
  sameSource : w.record.source = source
  sameReference : w.record.reference = reference
  value : w.record.progress.value ≤ 100
  fits : Fits f source reference asked w.record w.published w.stage
  told : w.stage.isQuiet → w.telling = none

end

/-! ## Whether cancellation was asked for in time -/

/-- Cancellation was asked for before, or now while the run has still to look at the flag. It grows
with the schedule and is what is meant by asking in time. -/
def Asked (asked : Prop) (w : WatchedRun) : Prop :=
  asked ∨ (w.isOpen ∧ w.record.progress.cancelled)

section

variable {f : Filter} {source : Image} {reference : Option Image} {asked : Prop}
  {p p' : Progress} {w : WatchedRun} {r : FilterRun} {published : RunState} {stage : RunStage}
  {telling : Option Nat}

theorem asked_of_isOpen (hopen : w.isOpen) (h : asked → w.record.progress.cancelled) :
    Asked asked w ↔ w.record.progress.cancelled := by
  constructor
  · rintro (hasked | ⟨-, hcancelled⟩)
    · exact h hasked
    · exact hcancelled
  · intro hcancelled
    exact Or.inr ⟨hopen, hcancelled⟩

theorem asked_of_not_isOpen (hclosed : w.isOpen = false) : Asked asked w ↔ asked := by
  constructor
  · rintro (hasked | ⟨hopen, -⟩)
    · exact hasked
    · rw [hclosed] at hopen
      cases hopen
  · exact Or.inl

theorem cancelled_of_isRunning (h : p'.isRunning → p.isRunning) (hcancelled : p.cancelled) :
    p'.cancelled := by
  cases hp' : p'.cancelled with
  | true => rfl
  | false =>
      have hrunning := h (by rw [Progress.isRunning, hp', Bool.not_false])
      rw [Progress.isRunning, hcancelled] at hrunning
      cases hrunning

theorem cancelled_of_not_isRunning (h : ¬p.isRunning) : p.cancelled := by
  rw [Progress.isRunning, Bool.not_eq_true, Bool.not_eq_false'] at h
  exact h

theorem Decided.ne_running {state : RunState} (h : Decided f source reference asked r state) :
    state ≠ .running := by
  rintro rfl
  exact h

theorem sound_new (hp : p.value ≤ 100) :
    Sound f source reference (p.cancelled = true) (new f source reference p) where
  sameSource := rfl
  sameReference := rfl
  value := hp
  fits := .idle ⟨rfl, rfl, Iff.rfl⟩
  told _ := rfl

/-! ## The flag may be set at any moment -/

theorem Waiting.disturbed {state : RunState} (h : Waiting f asked r state) {asked' : Prop}
    (hasked : asked' ↔ p'.cancelled) : Waiting f asked' { r with progress := p' } state :=
  ⟨h.state, h.filter, hasked⟩

theorem Filtering.disturbed {plan : Plan} (h : Filtering f source reference asked plan r)
    {asked' : Prop} (hasked : asked' ↔ p'.cancelled) :
    Filtering f source reference asked' plan { r with progress := p' } :=
  ⟨h.state, h.fault, h.planned, h.filter, hasked⟩

theorem Filtering.notNull {plan : Plan} (h : Filtering f source reference asked plan r) :
    r.source.isNull = false :=
  (FilterRun.measured_of_fault? h.fault).1

/-- Telling the observer and asking for cancellation leave the value as it is, and at most set the
flag. -/
theorem Sound.disturbed (h : Sound f source reference asked w)
    (hvalue : p'.value = w.record.progress.value)
    (hrunning : p'.isRunning → w.record.progress.isRunning) :
    Sound f source reference (Asked asked (w.withProgress p')) (w.withProgress p') := by
  obtain ⟨r, published, stage, telling⟩ := w
  obtain ⟨hsource, hreference, hle, hfits, htold⟩ := h
  refine ⟨hsource, hreference, Nat.le_trans (Nat.le_of_eq hvalue) hle, ?_, htold⟩
  dsimp only at hfits
  have hcancelled := cancelled_of_isRunning hrunning
  -- In an open stage the flag says whether cancellation was asked for, before and after the change.
  have hopen (hopen : ((WatchedRun.mk r published stage telling).withProgress p').isOpen)
      (hiff : asked ↔ r.progress.cancelled) :
      Asked asked ((WatchedRun.mk r published stage telling).withProgress p') ↔ p'.cancelled :=
    asked_of_isOpen hopen fun hasked => hcancelled (hiff.mp hasked)
  have hclosed (hclosed : ((WatchedRun.mk r published stage telling).withProgress p').isOpen = false) :
      Asked asked ((WatchedRun.mk r published stage telling).withProgress p') = asked :=
    propext (asked_of_not_isOpen hclosed)
  cases hfits with
  | idle hw =>
      have hidle : ((WatchedRun.mk r .idle .resting telling).withProgress p').isOpen :=
        decide_eq_true hw.state
      exact .idle (hw.disturbed (hopen hidle hw.asked))
  | called hw => exact .called (hw.disturbed (hopen rfl hw.asked))
  | begun hw => exact .begun (hw.disturbed (hopen rfl hw.asked))
  | opening hw => exact .opening (hw.disturbed (hopen rfl hw.asked))
  | examining hw => exact .examining (hw.disturbed (hopen rfl hw.asked))
  | admitting hw hfault => exact .admitting (hw.disturbed (hopen rfl hw.asked)) hfault
  | reporting hw => exact .reporting (hw.disturbed (hopen rfl hw.asked))
  | rows hw hwork hpaced =>
      exact .rows (hw.disturbed (hopen rfl hw.asked)) hwork (hpaced.disturbed hvalue hrunning)
  | spots hw hwork hrest =>
      exact .spots (hw.disturbed (hopen rfl hw.asked)) hwork fun hp => hrest (hrunning hp)
  | patching hw hwork hrest =>
      exact .patching (hw.disturbed (hopen rfl hw.asked)) hwork fun hp => hrest (hrunning hp)
  | checking hw hstored =>
      exact .checking (hw.disturbed (hopen rfl hw.asked)) fun hp => hstored (hrunning hp)
  | closing hstate hdecided =>
      rw [hclosed rfl]
      exact .closing hstate hdecided
  | decided hstate hdecided hfull =>
      rw [hclosed (decide_eq_false hdecided.ne_running)]
      exact .decided hstate hdecided fun hs => hvalue.trans (hfull hs)
  | published hstate hdecided hfull =>
      rw [hclosed (decide_eq_false hdecided.ne_running)]
      exact .published hstate hdecided fun hs => hvalue.trans (hfull hs)
  | ended hdecided hfull =>
      have hidle : r.state ≠ .idle := by
        intro hidle
        rw [hidle] at hdecided
        exact hdecided
      rw [hclosed (decide_eq_false hidle)]
      exact .ended hdecided fun hs => hvalue.trans (hfull hs)

/-- A move that changes nothing. -/
theorem Sound.same (h : Sound f source reference asked w) :
    Sound f source reference (Asked asked w) w :=
  h.disturbed (rfl : w.record.progress.value = w.record.progress.value) fun hrunning => hrunning

/-! ## The next step of the run -/

theorem cancelled_announce (p : Progress) (percent : Nat) :
    (p.announce percent).1.cancelled = p.cancelled := by
  rcases p.announce_cases percent with ⟨-, heq⟩ | ⟨-, heq⟩ <;> rw [heq]
  rfl

theorem value_announce_le (h : p.value ≤ 100) (percent : Nat) :
    (p.announce percent).1.value ≤ 100 := by
  rcases p.announce_cases percent with ⟨-, heq⟩ | ⟨-, heq⟩ <;> rw [heq]
  · exact h
  · exact Nat.max_le.mpr ⟨h, Nat.min_le_right _ _⟩

theorem value_announce_full (h : p.value ≤ 100) : (p.announce 100).1.value = 100 := by
  refine Nat.le_antisymm (value_announce_le h 100) ?_
  rcases p.announce_cases 100 with ⟨hle, heq⟩ | ⟨-, heq⟩ <;> rw [heq]
  · exact hle
  · exact Nat.le_max_right _ _

/-- The next step from a stage keeps what is known. -/
abbrev Advances (f : Filter) (asked : Prop) (r : FilterRun) (published : RunState)
    (stage : RunStage) : Prop :=
  let w := (WatchedRun.mk r published stage none).advance
  Sound f r.source r.reference (Asked asked w) w

section

variable {plan : Plan} {repair : SpotRepair} {image : Image} {done : Nat} {rest : List Rect}
  (hle : r.progress.value ≤ 100)

include hle

theorem advances_examining (hw : Waiting f asked r .running) :
    Advances f asked r .running .examining := by
  rw [Advances, WatchedRun.advance]
  dsimp only
  cases hfault : r.fault? with
  | some e =>
      refine ⟨rfl, rfl, hle, .decided hw.state hfault ?_, ?_⟩
      · rintro ⟨⟩
      · rintro ⟨⟩
  | none =>
      refine ⟨rfl, rfl, hle, .admitting { hw with asked := ?_ } hfault, ?_⟩
      · exact asked_of_isOpen rfl hw.asked.mp
      · rintro ⟨⟩

/-- A run whose images are in order has a plan, unless it is not to begin. -/
theorem advances_admitting (hw : Waiting f asked r .running) (hfault : r.fault? = none) :
    Advances f asked r .running .admitting := by
  rw [Advances, WatchedRun.advance]
  dsimp only
  by_cases hrunning : r.progress.isRunning
  · rw [if_pos hrunning]
    obtain ⟨image, himage⟩ := (FilterRun.measured_of_fault? hfault).2
    obtain ⟨plan, hplan⟩ := Filter.exists_plan himage r.filter
    rw [hplan]
    rw [hw.filter] at hplan
    refine ⟨rfl, rfl, hle, .reporting ⟨hw.state, hfault, hplan, rfl, ?_⟩, ?_⟩
    · exact asked_of_isOpen rfl hw.asked.mp
    · rintro ⟨⟩
  · rw [if_neg hrunning]
    have hasked := hw.asked.mpr (cancelled_of_not_isRunning hrunning)
    refine ⟨rfl, rfl, hle, .decided hw.state ⟨hfault, Or.inl hasked⟩ ?_, ?_⟩
    · rintro ⟨⟩
    · rintro ⟨⟩

theorem advances_reporting {reports : List Nat}
    (hw : Filtering f r.source r.reference asked plan r) :
    Advances f asked r .running (.reporting reports plan.work) := by
  cases reports with
  | nil =>
      rw [Advances, WatchedRun.advance]
      dsimp only
      have hnext : Filtering f r.source r.reference
          (Asked asked (WatchedRun.mk r .running (begin r.source plan.work) none)) plan r :=
        { hw with asked := asked_of_isOpen (by cases plan.work <;> rfl) hw.asked.mp }
      cases hwork : plan.work with
      | rows band op =>
          rw [hwork] at hnext
          have hpaced := Image.RowPool.paced_start r.source band op r.progress
          refine ⟨rfl, rfl, hle, .rows hnext hwork hpaced, ?_⟩
          rintro ⟨⟩
      | spots repair =>
          rw [hwork] at hnext
          refine ⟨rfl, rfl, hle, .spots hnext hwork fun _ => ?_, ?_⟩
          · rw [hwork]
            rfl
          · rintro ⟨⟩
  | cons percent reports =>
      refine ⟨rfl, rfl, value_announce_le hle percent, .reporting { hw with asked := ?_ }, ?_⟩
      · refine asked_of_isOpen rfl fun hasked => ?_
        exact (cancelled_announce r.progress percent).trans (hw.asked.mp hasked)
      · rintro ⟨⟩

theorem advances_spots (hw : Filtering f r.source r.reference asked plan r)
    (hwork : plan.work = .spots repair)
    (hrest : r.progress.isRunning →
      Repair.everySpot repair.interpolation repair.direction image rest
        = plan.work.result r.source) :
    Advances f asked r .running (.spots repair image done rest) := by
  cases rest with
  | nil =>
      refine ⟨rfl, rfl, hle, .checking { hw with asked := ?_ } hrest, ?_⟩
      · exact asked_of_isOpen rfl hw.asked.mp
      · rintro ⟨⟩
  | cons rect rest =>
      rw [Advances, WatchedRun.advance]
      dsimp only
      by_cases hrunning : r.progress.isRunning
      · rw [if_pos hrunning]
        refine ⟨rfl, rfl, hle, .patching { hw with asked := ?_ } hwork hrest, ?_⟩
        · exact asked_of_isOpen rfl hw.asked.mp
        · rintro ⟨⟩
      · rw [if_neg hrunning]
        refine ⟨rfl, rfl, hle, .checking { hw with asked := ?_ } ?_, ?_⟩
        · exact asked_of_isOpen rfl hw.asked.mp
        · intro h
          exact absurd h hrunning
        · rintro ⟨⟩

theorem advances_patching {rect : Rect} (hw : Filtering f r.source r.reference asked plan r)
    (hwork : plan.work = .spots repair)
    (hrest : r.progress.isRunning →
      Repair.everySpot repair.interpolation repair.direction image (rect :: rest)
        = plan.work.result r.source) :
    Advances f asked r .running (.patching repair image done rect rest) := by
  rw [Advances, WatchedRun.advance]
  dsimp only
  cases hspot : Repair.spot? image rect with
  | none =>
      refine ⟨rfl, rfl, hle, .spots { hw with asked := ?_ } hwork ?_, ?_⟩
      · exact asked_of_isOpen rfl hw.asked.mp
      · intro hrunning
        rw [← hrest hrunning, Repair.everySpot_cons, Repair.oneSpot_none hspot]
      · rintro ⟨⟩
  | some s =>
      refine ⟨rfl, rfl, value_announce_le hle _, .spots { hw with asked := ?_ } hwork ?_, ?_⟩
      · refine asked_of_isOpen rfl fun hasked => ?_
        exact (cancelled_announce r.progress _).trans (hw.asked.mp hasked)
      · intro hrunning
        rw [← hrest ?_, Repair.everySpot_cons, Repair.oneSpot_some hspot]
        rw [Progress.isRunning] at hrunning ⊢
        rwa [← cancelled_announce r.progress]
      · rintro ⟨⟩

/-- The last look at the flag. -/
theorem advances_checking (hw : Filtering f r.source r.reference asked plan r)
    (hstored : r.progress.isRunning → r.destination = plan.work.result r.source) :
    Advances f asked r .running .checking := by
  rw [Advances, WatchedRun.advance]
  dsimp only
  by_cases hrunning : r.progress.isRunning
  · rw [if_pos hrunning]
    have hnot : ¬asked := by
      intro hasked
      rw [Progress.isRunning, hw.asked.mp hasked] at hrunning
      cases hrunning
    refine ⟨rfl, rfl, hle, .closing hw.state ⟨hw.fault, ?_, plan, hw.planned, hw.filter,
      hstored hrunning⟩, ?_⟩
    · rwa [asked_of_not_isOpen rfl]
    · rintro ⟨⟩
  · rw [if_neg hrunning]
    have hasked := hw.asked.mpr (cancelled_of_not_isRunning hrunning)
    refine ⟨rfl, rfl, hle, .decided hw.state ⟨hw.fault, Or.inl hasked⟩ ?_, ?_⟩
    · rintro ⟨⟩
    · rintro ⟨⟩

end

theorem Sound.advance (h : Sound f source reference asked w) (htelling : w.telling = none) :
    Sound f source reference (Asked asked w.advance) w.advance := by
  have hsame := h.same
  obtain ⟨r, published, stage, telling⟩ := w
  obtain ⟨hsource, hreference, hle, hfits, htold⟩ := h
  dsimp only at hsource hreference hle hfits htelling
  subst htelling hsource hreference
  cases hfits with
  | idle | ended => exact hsame
  | called hw =>
      refine ⟨rfl, rfl, hle, .begun { hw with asked := ?_ }, fun _ => rfl⟩
      exact asked_of_isOpen rfl hw.asked.mp
  | begun hw =>
      refine ⟨rfl, rfl, hle, .opening { hw with state := rfl, asked := ?_ }, fun _ => rfl⟩
      exact asked_of_isOpen rfl hw.asked.mp
  | opening hw =>
      refine ⟨rfl, rfl, value_announce_le hle 0, .examining { hw with asked := ?_ }, ?_⟩
      · refine asked_of_isOpen rfl fun hasked => ?_
        exact (cancelled_announce r.progress 0).trans (hw.asked.mp hasked)
      · rintro ⟨⟩
  | examining hw => exact advances_examining hle hw
  | admitting hw hfault => exact advances_admitting hle hw hfault
  | reporting hw => exact advances_reporting hle hw
  | @rows plan band op p pool hw hwork hpaced =>
      rw [WatchedRun.advance]
      dsimp only
      split
      · rename_i hdone
        refine ⟨rfl, rfl, hle, .checking { hw with asked := ?_ } ?_, ?_⟩
        · exact asked_of_isOpen rfl hw.asked.mp
        · intro hrunning
          rw [hwork]
          exact hpaced.everyRow hw.notNull hdone hrunning
        · rintro ⟨⟩
      · exact hsame
  | spots hw hwork hrest => exact advances_spots hle hw hwork hrest
  | patching hw hwork hrest => exact advances_patching hle hw hwork hrest
  | checking hw hstored => exact advances_checking hle hw hstored
  | closing hstate hdecided =>
      refine ⟨rfl, rfl, value_announce_le hle 100, .decided hstate ?_ fun _ => ?_, ?_⟩
      · rw [asked_of_not_isOpen rfl]
        exact hdecided
      · exact value_announce_full hle
      · rintro ⟨⟩
  | @decided state hstate hdecided hfull =>
      have hclosed : (WatchedRun.mk r state (.entering state) none).isOpen = false :=
        decide_eq_false hdecided.ne_running
      refine ⟨rfl, rfl, hle, .published hstate ?_ hfull, fun _ => rfl⟩
      exact (propext (asked_of_not_isOpen hclosed)).symm ▸ hdecided
  | @published state hstate hdecided hfull =>
      rw [WatchedRun.advance]
      dsimp only
      rw [if_neg hdecided.ne_running]
      refine ⟨rfl, rfl, hle, .ended ?_ hfull, fun _ => rfl⟩
      rw [asked_of_not_isOpen ?_]
      · exact hdecided
      · refine decide_eq_false ?_
        rintro rfl
        exact hdecided

/-! ## Any move -/

theorem Sound.row (h : Sound f source reference asked w) (y : Nat) :
    Sound f source reference (Asked asked (w.move (.row y))) (w.move (.row y)) := by
  have hsame := h.same
  obtain ⟨r, published, stage, telling⟩ := w
  cases telling with
  | some percent => exact hsame
  | none =>
      cases stage with
      | rows pool =>
          obtain ⟨hsource, hreference, hle, hfits, -⟩ := h
          dsimp only at hfits
          have hstep := pool.step_cases r.progress y
          cases hfits with
          | rows hw hwork hpaced =>
              refine ⟨hsource, hreference, hstep.value_le hle, .rows { hw with asked := ?_ } hwork
                (hpaced.step hstep), ?_⟩
              · refine asked_of_isOpen rfl fun hasked => ?_
                exact cancelled_of_isRunning hstep.isRunning (hw.asked.mp hasked)
              · rintro ⟨⟩
      | _ => exact hsame

theorem Sound.go (h : Sound f source reference asked w) :
    Sound f source reference (Asked asked (w.move .go)) (w.move .go) := by
  rw [WatchedRun.move]
  cases htelling : w.telling with
  | none => exact h.advance htelling
  | some percent =>
      have hdelivered := h.disturbed (Progress.value_deliver w.record.progress percent)
        Progress.isRunning_of_deliver
      exact { hdelivered with told := fun _ => rfl }

theorem Sound.call (h : Sound f source reference asked w) :
    Sound f source reference (Asked asked (w.move .call)) (w.move .call) := by
  have hsame := h.same
  obtain ⟨r, published, stage, telling⟩ := w
  cases stage with
  | resting =>
      rw [WatchedRun.move]
      dsimp only
      split
      · rename_i hidle
        obtain ⟨hsource, hreference, hle, hfits, -⟩ := h
        dsimp only at hfits
        cases hfits with
        | idle hw =>
            refine ⟨hsource, hreference, hle, .called { hw with asked := ?_ }, ?_⟩
            · exact asked_of_isOpen rfl hw.asked.mp
            · rintro ⟨⟩
        | ended hdecided =>
            rw [hidle] at hdecided
            exact hdecided.elim
      · exact hsame
  | _ => exact hsame

theorem Sound.move (h : Sound f source reference asked w) (m : Move) :
    Sound f source reference (Asked asked (w.move m)) (w.move m) := by
  cases m with
  | call => exact h.call
  | go => exact h.go
  | row y => exact h.row y
  | cancel =>
      have hvalue : w.record.progress.cancel.value = w.record.progress.value := rfl
      refine h.disturbed hvalue ?_
      rintro ⟨⟩

end

end WatchedRun

end Darkroom
