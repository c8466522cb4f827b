import Darkroom.Proofs.Filter.Schedules
import Darkroom.Proofs.Filter.Stages

/-!
# The life of a run

What is known in each stage is put together for whole schedules (`sound_moves`). From it follow the
order of the states, what a run ends in, and that an ended run stays as it is (`Life`). A run that is
called and left alone ends as `FilterRun.run` says (`lifecycle`).
-/

namespace Darkroom

/-- One state follows another or stays. Terminal states have nothing behind them, so a run goes
through idle and running to at most one of them. -/
def RunState.Onward (first second : RunState) : Prop :=
  second = first ∨ (first = .idle ∧ second = .running)
    ∨ (first = .running ∧ second.isTerminal)

namespace WatchedRun

section

variable {f : Filter} {source : Image} {reference : Option Image} {asked : Prop} {p : Progress}
  {w : WatchedRun} {r : FilterRun}

/-! ## Whole schedules -/

/-- Cancellation was asked for at a moment of the schedule at which the run had still to look at the
flag. Requests that come later are set down in the flag, but they are not seen any more. -/
def AskedInTime (w : WatchedRun) (schedule : List Move) : Prop :=
  ∃ first rest, schedule = first ++ rest ∧ (w.moves first).isOpen
    ∧ (w.moves first).record.progress.cancelled

theorem askedInTime_nil : w.AskedInTime [] ↔ w.isOpen ∧ w.record.progress.cancelled := by
  constructor
  · rintro ⟨first, rest, hnil, h⟩
    obtain ⟨rfl, -⟩ := List.append_eq_nil_iff.mp hnil.symm
    exact h
  · intro h
    exact ⟨[], [], rfl, h⟩

theorem askedInTime_of_now (h : w.isOpen ∧ w.record.progress.cancelled) (schedule : List Move) :
    w.AskedInTime schedule :=
  ⟨[], schedule, rfl, h⟩

theorem askedInTime_cons {m : Move} {schedule : List Move} :
    w.AskedInTime (m :: schedule)
      ↔ (w.isOpen ∧ w.record.progress.cancelled) ∨ (w.move m).AskedInTime schedule := by
  constructor
  · rintro ⟨first, rest, hcons, h⟩
    cases first with
    | nil => exact Or.inl h
    | cons m' first =>
        obtain ⟨rfl, rfl⟩ := List.cons.inj hcons
        exact Or.inr ⟨first, rest, rfl, h⟩
  · rintro (h | ⟨first, rest, rfl, h⟩)
    · exact ⟨[], _, rfl, h⟩
    · exact ⟨m :: first, rest, rfl, h⟩

theorem Sound.moves (schedule : List Move) (h : Sound f source reference asked w)
    (hasked : w.isOpen ∧ w.record.progress.cancelled → asked) :
    Sound f source reference (asked ∨ w.AskedInTime schedule) (w.moves schedule) := by
  induction schedule generalizing w asked with
  | nil =>
      have hiff : (asked ∨ w.AskedInTime []) = asked := by
        rw [askedInTime_nil]
        exact propext (or_iff_left_of_imp hasked)
      rw [hiff]
      exact h
  | cons m schedule ih =>
      have hiff : (Asked asked (w.move m) ∨ (w.move m).AskedInTime schedule)
          ↔ asked ∨ w.AskedInTime (m :: schedule) := by
        rw [askedInTime_cons]
        constructor
        · rintro ((h | h) | h)
          · exact Or.inl h
          · exact Or.inr (Or.inr (askedInTime_of_now h schedule))
          · exact Or.inr (Or.inr h)
        · rintro (h | h | h)
          · exact Or.inl (Or.inl h)
          · exact Or.inl (Or.inl (hasked h))
          · exact Or.inr h
      rw [← propext hiff]
      exact ih (h.move m) Or.inr

/-- After any schedule, what is known speaks of the cancellation asked for in time. -/
theorem sound_moves (hp : p.value ≤ 100) (schedule : List Move) :
    Sound f source reference ((new f source reference p).AskedInTime schedule)
      ((new f source reference p).moves schedule) := by
  have hnew : Sound f source reference (p.cancelled = true) (new f source reference p) :=
    sound_new hp
  have h := hnew.moves schedule fun hnow => hnow.2
  have hiff : (p.cancelled = true ∨ (new f source reference p).AskedInTime schedule)
      ↔ (new f source reference p).AskedInTime schedule :=
    or_iff_right_of_imp fun hcancelled => askedInTime_of_now ⟨rfl, hcancelled⟩ schedule
  rwa [propext hiff] at h

/-! ## States move onward -/

theorem published_advance (w : WatchedRun) :
    w.advance.published = w.published
      ∨ ∃ state, w.stage = .publishing state ∧ w.advance.published = state := by
  unfold advance
  split
  case h_2 state hstage => exact Or.inr ⟨state, hstage, rfl⟩
  all_goals repeat' split
  all_goals exact Or.inl rfl

theorem state_advance (w : WatchedRun) :
    w.advance.record.state = w.record.state
      ∨ ∃ state, w.stage = .entering state ∧ w.advance.record.state = state := by
  unfold advance
  split
  case h_3 state hstage => exact Or.inr ⟨state, hstage, rfl⟩
  all_goals repeat' split
  all_goals exact Or.inl rfl

theorem published_move (w : WatchedRun) (m : Move) :
    (w.move m).published = w.published
      ∨ ∃ state, w.stage = .publishing state ∧ (w.move m).published = state := by
  unfold move
  split
  case h_3 =>
    split
    · exact Or.inl rfl
    · exact w.published_advance
  all_goals repeat' split
  all_goals exact Or.inl rfl

theorem state_move (w : WatchedRun) (m : Move) :
    (w.move m).record.state = w.record.state
      ∨ ∃ state, w.stage = .entering state ∧ (w.move m).record.state = state := by
  unfold move
  split
  case h_3 =>
    split
    · exact Or.inl rfl
    · exact w.state_advance
  all_goals repeat' split
  all_goals exact Or.inl rfl

theorem Decided.isTerminal {state : RunState} (h : Decided f source reference asked r state) :
    state.isTerminal := by
  cases state with
  | idle | running => exact h.elim
  | finished | cancelled | failed => rfl

theorem Sound.onward (h : Sound f source reference asked w) (m : Move) :
    w.record.state.Onward (w.move m).record.state ∧ w.published.Onward (w.move m).published := by
  have hstate := w.state_move m
  have hpublished := w.published_move m
  obtain ⟨r, published, stage, telling⟩ := w
  obtain ⟨-, -, -, hfits, -⟩ := h
  dsimp only at hfits hstate hpublished
  constructor
  · rcases hstate with hstate | ⟨state, rfl, hstate⟩
    · exact Or.inl hstate
    · right
      rw [hstate]
      cases hfits with
      | begun hw => exact Or.inl ⟨hw.state, rfl⟩
      | published hrunning hdecided => exact Or.inr ⟨hrunning, hdecided.isTerminal⟩
  · rcases hpublished with hpublished | ⟨state, rfl, hpublished⟩
    · exact Or.inl hpublished
    · right
      rw [hpublished]
      cases hfits with
      | called => exact Or.inl ⟨rfl, rfl⟩
      | decided _ hdecided => exact Or.inr ⟨rfl, hdecided.isTerminal⟩

/-- The published state is that of the record or the next one. -/
theorem Sound.ahead (h : Sound f source reference asked w) :
    w.record.state.Onward w.published := by
  obtain ⟨r, published, stage, telling⟩ := w
  obtain ⟨-, -, -, hfits, -⟩ := h
  dsimp only at hfits
  cases hfits with
  | idle hw | called hw | opening hw | examining hw | admitting hw => exact Or.inl hw.state.symm
  | begun hw => exact Or.inr (Or.inl ⟨hw.state, rfl⟩)
  | reporting hw | rows hw | spots hw | patching hw | checking hw => exact Or.inl hw.state.symm
  | closing hstate | decided hstate => exact Or.inl hstate.symm
  | published hstate hdecided => exact Or.inr (Or.inr ⟨hstate, hdecided.isTerminal⟩)
  | ended => exact Or.inl rfl

theorem Sound.of_resting (h : Sound f source reference asked w) (hrest : w.stage = .resting) :
    w.published = w.record.state ∧ w.record.state ≠ .running := by
  obtain ⟨r, published, stage, telling⟩ := w
  obtain ⟨-, -, -, hfits, -⟩ := h
  dsimp only at hfits hrest
  subst hrest
  cases hfits with
  | idle hw =>
      refine ⟨hw.state.symm, ?_⟩
      rw [hw.state]
      rintro ⟨⟩
  | ended hdecided => exact ⟨rfl, hdecided.ne_running⟩

/-- A run whose record has come to its last state is at rest. -/
theorem Sound.of_isTerminal (h : Sound f source reference asked w)
    (hterminal : w.record.state.isTerminal) :
    w.stage = .resting ∧ w.telling = none
      ∧ Decided f source reference asked w.record w.record.state
      ∧ (w.record.state = .finished → w.record.progress.value = 100) := by
  obtain ⟨r, published, stage, telling⟩ := w
  obtain ⟨-, -, -, hfits, htold⟩ := h
  dsimp only at hfits hterminal htold
  have hrunning (hstate : r.state = .running) : False := by
    rw [hstate] at hterminal
    cases hterminal
  cases hfits with
  | idle hw | called hw | begun hw =>
      rw [hw.state] at hterminal
      cases hterminal
  | opening hw | examining hw | admitting hw => exact (hrunning hw.state).elim
  | reporting hw | rows hw | spots hw | patching hw | checking hw =>
      exact (hrunning hw.state).elim
  | closing hstate | decided hstate | published hstate => exact (hrunning hstate).elim
  | ended hdecided hfull => exact ⟨rfl, htold rfl, hdecided, hfull⟩

/-! ## What a run ends in -/

def NullGiven (source : Image) (reference : Option Image) : Prop :=
  source.isNull ∨ ∃ image, reference = some image ∧ image.isNull

/-- The error of a reference whose depth is not that of the source. It names both depths in bits,
the one of the source first. -/
def Mismatch (source : Image) (reference : Option Image) (e : FilterError) : Prop :=
  ∃ image, reference = some image ∧ image.depth ≠ source.depth
    ∧ e = .depthMismatch (UInt32.ofNat source.depth.bits) (UInt32.ofNat image.depth.bits)

theorem fault?_eq_nullImage : r.fault? = some .nullImage ↔ NullGiven r.source r.reference := by
  unfold FilterRun.fault? NullGiven Filter.measured
  by_cases hnull : r.source.isNull
  · simp only [hnull, if_true, true_or]
  · rw [if_neg hnull]
    cases r.reference with
    | none => simp [hnull]
    | some image =>
        by_cases himage : image.isNull
        · simp [hnull, himage]
        · by_cases hdepth : image.depth = r.source.depth <;> simp [hnull, himage, hdepth]

theorem fault?_eq_some (h : ¬NullGiven r.source r.reference) (e : FilterError) :
    r.fault? = some e ↔ Mismatch r.source r.reference e := by
  unfold NullGiven at h
  unfold FilterRun.fault? Mismatch Filter.measured
  rw [not_or] at h
  obtain ⟨hnull, himages⟩ := h
  rw [if_neg hnull]
  cases hreference : r.reference with
  | none => simp
  | some image =>
      have himage : ¬image.isNull := fun himage => himages ⟨image, hreference, himage⟩
      by_cases hdepth : image.depth = r.source.depth
      · simp [himage, hdepth]
      · simp [himage, hdepth, eq_comm]

theorem Decided.failed_iff (h : Decided f source reference asked r r.state) (e : FilterError) :
    r.state = .failed e ↔ r.fault? = some e := by
  constructor
  · intro hstate
    rw [hstate] at h
    exact h
  · intro hfault
    generalize r.state = state at h
    cases state with
    | idle | running => exact h.elim
    | failed e' => rw [Option.some.inj (hfault.symm.trans h)]
    | cancelled | finished =>
        rw [h.1] at hfault
        cases hfault

theorem Decided.cancelled_iff (h : Decided f source reference asked r r.state)
    (hfault : r.fault? = none) :
    (r.state = .cancelled ↔ asked) ∧ (r.state = .finished ↔ ¬asked) := by
  generalize r.state = state at h
  cases state with
  | idle | running => exact h.elim
  | failed e => cases hfault.symm.trans h
  | cancelled => exact ⟨iff_of_true rfl h.2, iff_of_false (by rintro ⟨⟩) (not_not_intro h.2)⟩
  | finished => exact ⟨iff_of_false (by rintro ⟨⟩) h.2.1, iff_of_true rfl h.2.1⟩

/-- What the last state of a run says. The images decide first, and then whether cancellation was asked
for. -/
structure Verdict (source : Image) (reference : Option Image) (asked : Prop) (state : RunState) :
    Prop where
  null_iff : state = .failed .nullImage ↔ NullGiven source reference
  failed_iff : ¬NullGiven source reference → ∀ e, state = .failed e ↔ Mismatch source reference e
  cancelled_iff : ¬NullGiven source reference → (¬∃ e, Mismatch source reference e) →
    (state = .cancelled ↔ asked)
  finished_iff : ¬NullGiven source reference → (¬∃ e, Mismatch source reference e) →
    (state = .finished ↔ ¬asked)

theorem Sound.verdict (h : Sound f source reference asked w)
    (hterminal : w.record.state.isTerminal) :
    Verdict source reference asked w.record.state := by
  obtain ⟨-, -, hdecided, -⟩ := h.of_isTerminal hterminal
  have hnull := fault?_eq_nullImage (r := w.record)
  have hmismatch := fault?_eq_some (r := w.record)
  rw [h.sameSource, h.sameReference] at hnull hmismatch
  have hfault (hgiven : ¬NullGiven source reference) (hnone : ¬∃ e, Mismatch source reference e) :
      w.record.fault? = none := by
    rw [Option.eq_none_iff_forall_not_mem]
    intro e he
    exact hnone ⟨e, (hmismatch hgiven e).mp he⟩
  exact {
    null_iff := (hdecided.failed_iff _).trans hnull
    failed_iff := fun hgiven e => (hdecided.failed_iff e).trans (hmismatch hgiven e)
    cancelled_iff := fun hgiven hnone => (hdecided.cancelled_iff (hfault hgiven hnone)).1
    finished_iff := fun hgiven hnone => (hdecided.cancelled_iff (hfault hgiven hnone)).2 }

/-! ## The target -/

theorem target?_eq_some {image : Image} :
    r.target? = some image ↔ r.state = .finished ∧ r.destination = image := by
  rw [FilterRun.target?]
  by_cases hstate : r.state = .finished
  · rw [if_pos hstate, Option.some.injEq]
    exact (and_iff_right hstate).symm
  · rw [if_neg hstate]
    exact iff_of_false (by rintro ⟨⟩) fun h => hstate h.1

theorem isSome_target? : r.target?.isSome ↔ r.state = .finished := by
  rw [Option.isSome_iff_exists]
  constructor
  · rintro ⟨image, himage⟩
    exact (target?_eq_some.mp himage).1
  · intro hstate
    exact ⟨r.destination, target?_eq_some.mpr ⟨hstate, rfl⟩⟩

theorem Sound.of_target (h : Sound f source reference asked w) {image : Image}
    (himage : w.record.target? = some image) :
    w.record.progress.value = 100
      ∧ ∃ result, f.apply source reference .start = .ok result ∧ image = result.image
        ∧ w.record.filter = result.filter := by
  obtain ⟨hstate, rfl⟩ := target?_eq_some.mp himage
  have hterminal : w.record.state.isTerminal := by
    rw [hstate]
    rfl
  obtain ⟨-, -, hdecided, hfull⟩ := h.of_isTerminal hterminal
  rw [hstate] at hdecided
  obtain ⟨-, -, plan, hplan, hfilter, hstored⟩ := hdecided
  obtain ⟨result, happly, hleft, hresult⟩ := Filter.apply_of_plan hplan
  exact ⟨hfull hstate, result, happly, hstored.trans hresult.symm, hfilter.trans hleft.symm⟩

/-! ## An ended run -/

theorem move_of_ended (m : Move) (hrest : w.stage = .resting) (htelling : w.telling = none)
    (hidle : w.record.state ≠ .idle) : w.move m = w ∨ w.move m = w.move .cancel := by
  cases m with
  | call => exact Or.inl (by simp only [move, hrest, if_neg hidle])
  | cancel => exact Or.inr rfl
  | go => exact Or.inl (by simp only [move, htelling, advance, hrest])
  | row y => exact Or.inl (by simp only [move, htelling, hrest])

/-- Nothing happens to a run that has ended, except that the flag may be set. -/
theorem moves_of_ended (schedule : List Move) (hrest : w.stage = .resting)
    (htelling : w.telling = none) (hidle : w.record.state ≠ .idle) :
    w.moves schedule = w ∨ w.moves schedule = w.move .cancel := by
  induction schedule generalizing w with
  | nil => exact Or.inl rfl
  | cons m schedule ih =>
      rcases move_of_ended m hrest htelling hidle with heq | heq
      · have hnext : w.moves (m :: schedule) = w.moves schedule := congrArg (moves · schedule) heq
        rw [hnext]
        exact ih hrest htelling hidle
      · have hnext : w.moves (m :: schedule) = (w.move .cancel).moves schedule :=
          congrArg (moves · schedule) heq
        rw [hnext]
        rcases ih (w := w.move .cancel) hrest htelling hidle with h | h
        · exact Or.inr h
        · exact Or.inr h

/-- What others see of a run is the same as before. Only the flag may differ, since anyone can set
it at any time. -/
structure Unchanged (w later : WatchedRun) : Prop where
  state : later.record.state = w.record.state
  published : later.published = w.published
  target : later.record.target? = w.record.target?
  source : later.record.source = w.record.source
  action : later.record.action = w.record.action
  percent : later.record.progress.value = w.record.progress.value
  heard : later.record.progress.heard = w.record.progress.heard

theorem Sound.unchanged (h : Sound f source reference asked w)
    (hterminal : w.record.state.isTerminal) (later : List Move) : Unchanged w (w.moves later) := by
  obtain ⟨hrest, htelling, -, -⟩ := h.of_isTerminal hterminal
  have hidle : w.record.state ≠ .idle := by
    intro hidle
    rw [hidle] at hterminal
    cases hterminal
  rcases moves_of_ended later hrest htelling hidle with heq | heq <;> rw [heq]
  · exact ⟨rfl, rfl, rfl, rfl, rfl, rfl, rfl⟩
  · exact ⟨rfl, rfl, rfl, rfl, rfl, rfl, rfl⟩

/-- What is known of a run at any moment, if `asked` tells whether cancellation was asked for before the run
looked at the flag for the last time. -/
structure Life (f : Filter) (source : Image) (reference : Option Image) (asked : Prop)
    (w : WatchedRun) : Prop where
  /-- States only move onward. -/
  onward (m : Move) :
    w.record.state.Onward (w.move m).record.state ∧ w.published.Onward (w.move m).published
  /-- The published state is never more than one ahead. -/
  ahead : w.record.state.Onward w.published
  resting : w.stage = .resting → w.published = w.record.state ∧ w.record.state ≠ .running
  verdict : w.record.state.isTerminal → Verdict source reference asked w.record.state
  target_iff : w.record.target?.isSome ↔ w.record.state = .finished
  /-- The target is what the filter gives. -/
  target : ∀ image, w.record.target? = some image → w.record.progress.value = 100
    ∧ ∃ result, f.apply source reference .start = .ok result ∧ image = result.image
      ∧ w.record.filter = result.filter
  /-- An ended run stays as it is. -/
  ended : w.record.state.isTerminal → ∀ later, Unchanged w (w.moves later)
  /-- A run can always end. -/
  ends : ∃ rest, Leads w rest ∧ rest.stage = .resting

/-- Whatever watches a run and whenever cancellation is asked for, it is as `Life` says. If nobody interferes
it does what `FilterRun.run` does, so the steps are those of the run that filters are used with. -/
theorem lifecycle {p : Progress} (hp : p.value ≤ 100) (f : Filter) (source : Image)
    (reference : Option Image) (schedule : List Move) :
    let start := new f source reference p
    let called := (FilterRun.new f source reference p).run
    Life f source reference (start.AskedInTime schedule) (start.moves schedule)
      ∧ Leads (start.move .call) ⟨called, called.state, .resting, none⟩ := by
  intro start called
  have h : Sound f source reference (start.AskedInTime schedule) (start.moves schedule) :=
    sound_moves hp schedule
  constructor
  · exact {
      onward := h.onward
      ahead := h.ahead
      resting := h.of_resting
      verdict := h.verdict
      target_iff := isSome_target?
      target := fun _ himage => h.of_target himage
      ended := h.unchanged
      ends := exists_rest _ }
  · exact call_leads_run f source reference p

def brightMiddle : Image :=
  ⟨3, 1, .eight, false, #[10, 10, 10, 255, 200, 200, 200, 255, 30, 30, 30, 255]⟩

def repairMiddle : Filter :=
  .new (.spotRepair ⟨.average, .twoDim, [⟨1, 0, 1, 1⟩]⟩)

/-- Cancellation is asked for when the run has just looked at the flag for the last time, and the
run is called again when it is at rest. -/
def cancelledLate : List Move :=
  .call :: List.replicate 11 .go ++ [.cancel] ++ List.replicate 3 .go ++ [.call, .go]

theorem lifecycle_cancelledLate :
    let w := (new repairMiddle brightMiddle none (.observed none)).moves cancelledLate
    w.record.state = .finished ∧ w.published = .finished ∧ w.record.progress.cancelled
      ∧ w.record.target?
        = some ⟨3, 1, .eight, false, #[10, 10, 10, 255, 20, 20, 20, 255, 30, 30, 30, 255]⟩
      ∧ w.record.progress.value = 100 := by
  have hstate : ((new repairMiddle brightMiddle none (.observed none)).moves
      cancelledLate).record.state = .finished := by
    decide +kernel
  have htarget : ((new repairMiddle brightMiddle none (.observed none)).moves
      cancelledLate).record.target?
      = some ⟨3, 1, .eight, false, #[10, 10, 10, 255, 20, 20, 20, 255, 30, 30, 30, 255]⟩ := by
    decide +kernel
  have hcancelled : ((new repairMiddle brightMiddle none (.observed none)).moves
      cancelledLate).record.progress.cancelled := by
    decide +kernel
  obtain ⟨hlife, -⟩ :=
    lifecycle (p := .observed none) (Nat.zero_le 100) repairMiddle brightMiddle none cancelledLate
  have hahead := hlife.ahead
  rw [hstate] at hahead
  rcases hahead with hpublished | ⟨⟨⟩, -⟩ | ⟨⟨⟩, -⟩
  exact ⟨hstate, hpublished, hcancelled, htarget, (hlife.target _ htarget).1⟩

end

end WatchedRun

end Darkroom
