import Darkroom.Proofs.Filter.Lifecycle
import Darkroom.Proofs.Filter.Stored
import Darkroom.Proofs.Filter.Units
import Mathlib.Data.List.Induction

/-!
# What a cancelled run leaves

Whatever a filter is at work on consists of whole units: for rows this is what is known of a pool
under way, and for spots it is kept from move to move (`inStep_move`). A run that stops stores what
its filter was at work on, so a cancelled run leaves nothing if its filter was never called, and else
an image of whole units (`Written.move`).
-/

namespace Darkroom

namespace WatchedRun

variable {f : Filter} {source : Image} {reference : Option Image} {asked entered : Prop}
  {p : Progress} {w : WatchedRun}

/-! ## Whether the filter was called -/

/-- The filter was at work at some moment of the schedule. Before that the run has no image of its
own, so what it leaves when it is cancelled is null. -/
def Entered (w : WatchedRun) (schedule : List Move) : Prop :=
  ∃ first, first <+: schedule ∧ (w.moves first).working?.isSome

theorem entered_nil : w.Entered [] ↔ w.working?.isSome := by
  constructor
  · rintro ⟨first, hfirst, h⟩
    rwa [List.prefix_nil.mp hfirst] at h
  · intro h
    exact ⟨[], List.nil_prefix, h⟩

theorem moves_concat (w : WatchedRun) (schedule : List Move) (m : Move) :
    w.moves (schedule ++ [m]) = (w.moves schedule).move m :=
  List.foldl_concat ..

theorem entered_concat {schedule : List Move} {m : Move} :
    w.Entered (schedule ++ [m])
      ↔ w.Entered schedule ∨ ((w.moves schedule).move m).working?.isSome := by
  rw [← moves_concat]
  constructor
  · rintro ⟨first, hfirst, h⟩
    rcases List.prefix_concat_iff.mp hfirst with rfl | hfirst
    · exact Or.inr h
    · exact Or.inl ⟨first, hfirst, h⟩
  · rintro (⟨first, hfirst, h⟩ | h)
    · exact ⟨first, hfirst.trans (List.prefix_append _ _), h⟩
    · exact ⟨_, List.prefix_refl _, h⟩

/-! ## Spots in their order -/

/-- Spots were repaired from the first one on, and those that follow are left. Spots are repaired
one after the other in the order of the list, whatever happens around them. -/
def Halfway (source : Image) (repair : SpotRepair) (image : Image) (rest : List Rect) : Prop :=
  ∃ first, repair.spots = first ++ rest
    ∧ image = Repair.everySpot repair.interpolation repair.direction source first

theorem Halfway.one {repair : SpotRepair} {image : Image} {rect : Rect} {rest : List Rect}
    (h : Halfway source repair image (rect :: rest)) :
    Halfway source repair (Repair.oneSpot repair.interpolation repair.direction image rect) rest := by
  obtain ⟨first, hspots, rfl⟩ := h
  refine ⟨first ++ [rect], ?_, (Repair.everySpot_concat _ _ _ _ _).symm⟩
  rw [hspots, List.append_assoc, List.singleton_append]

/-- What is known of spots in each stage. While a spot is being repaired, the image is that of the
spots before it. -/
def InStep (source : Image) : RunStage → Prop
  | .spots repair image _ rest => Halfway source repair image rest
  | .patching repair image _ rect rest => Halfway source repair image (rect :: rest)
  | _ => True

theorem inStep_begin (source : Image) (work : Work) : InStep source (begin source work) := by
  cases work with
  | rows => trivial
  | spots repair => exact ⟨[], rfl, rfl⟩

theorem inStep_advance (h : InStep w.record.source w.stage) :
    InStep w.record.source w.advance.stage := by
  obtain ⟨r, published, stage, telling⟩ := w
  cases stage with
  | resting | publishing | opening | closing => trivial
  | entering | examining | checking =>
      rw [advance]
      dsimp only
      split <;> trivial
  | admitting =>
      rw [advance]
      dsimp only
      repeat' split
      all_goals trivial
  | reporting reports work =>
      cases reports with
      | nil => exact inStep_begin r.source work
      | cons => trivial
  | rows pool =>
      rw [advance]
      dsimp only
      split <;> trivial
  | spots repair image done rest =>
      cases rest with
      | nil => trivial
      | cons rect rest =>
          rw [advance]
          dsimp only
          split
          · exact h
          · trivial
  | patching repair image done rect rest =>
      -- A rectangle outside of the image counts as repaired, too.
      have hone := Halfway.one h
      rw [advance]
      dsimp only
      cases hspot : Repair.spot? image rect with
      | none =>
          rw [Repair.oneSpot_none hspot] at hone
          exact hone
      | some s =>
          rw [Repair.oneSpot_some hspot] at hone
          exact hone

theorem inStep_move (h : InStep w.record.source w.stage) (m : Move) :
    InStep w.record.source (w.move m).stage := by
  cases m with
  | cancel => exact h
  | go =>
      rw [move]
      split
      · exact h
      · exact inStep_advance h
  | call =>
      rw [move]
      repeat' split
      · trivial
      · exact h
      · exact h
  | row y =>
      rw [move]
      split
      · trivial
      · exact h

/-! ## Whole units -/

/-- An image of whole units in the frame of a source that is not null. The units are rows for all
filters but the repair, and spots for that. -/
structure Left (f : Filter) (source : Image) (reference : Option Image) (image : Image) : Prop where
  notNull : source.isNull = false
  frame : Image.Keeps [] source image
  units : f.MayLeave source reference image

theorem Left.ne_null {image : Image} (h : Left f source reference image) : image ≠ .null := by
  rintro rfl
  cases h.frame.isNull.trans h.notNull

section

variable {plan : Plan} (hwf : source.WellFormed) (hnull : source.isNull = false)
  (hplan : f.plan source reference = .ok plan)

include hwf hnull hplan

theorem left_halfway {repair : SpotRepair} {image : Image} {rest : List Rect}
    (hwork : plan.work = .spots repair) (h : Halfway source repair image rest) :
    Left f source reference image := by
  obtain ⟨first, hspots, rfl⟩ := h
  have hfirst : first <+: repair.spots := ⟨rest, hspots.symm⟩
  refine ⟨hnull, ?_, Filter.mayLeave_spots hplan hwork hfirst rfl⟩
  exact (Repair.keeps_everySpot { repair with spots := first } hwf hnull).frame

theorem left_paced {band : Image.Band} {op : Image.RowOp} {p₀ p : Progress} {pool : Image.RowPool}
    (hwork : plan.work = .rows band op) (h : Image.RowPool.Paced source band op p₀ pool p) :
    Left f source reference (pool.image source) := by
  have hop : ∀ y row, (op y row).size = row.size := Filter.size_rowOp hplan hwork
  have hframe : Image.Keeps [] source (pool.image source) :=
    ⟨rfl, rfl, rfl, rfl, h.size_image hwf hop, fun i hi => absurd hi List.not_mem_nil⟩
  refine ⟨hnull, hframe, ?_⟩
  refine Filter.mayLeave_rows hwf hnull hplan hwork fun y hy => ?_
  obtain ⟨task, htask, hrow⟩ := h.getElem? hy
  rw [h.row_image hwf hop htask, hrow]
  split
  · exact Or.inr rfl
  · exact Or.inl rfl

theorem left_source : Left f source reference source := by
  cases hwork : plan.work with
  | rows band op =>
      have hunits := Filter.mayLeave_rows hwf hnull hplan hwork fun y _ => Or.inl rfl
      exact ⟨hnull, .refl _ _, hunits⟩
  | spots repair => exact left_halfway hwf hnull hplan hwork ⟨[], rfl, rfl⟩

end

theorem Sound.left (h : Sound f source reference asked w) (hwf : source.WellFormed)
    (hstep : InStep source w.stage) {image : Image} (hworking : w.working? = some image) :
    Left f source reference image := by
  obtain ⟨r, published, stage, telling⟩ := w
  obtain ⟨hsource, -, -, hfits, -⟩ := h
  dsimp only at hsource hfits hstep
  subst hsource
  cases hfits with
  | reporting hw =>
      obtain rfl := Option.some.inj hworking
      exact left_source hwf hw.notNull hw.planned
  | rows hw hwork hpaced =>
      obtain rfl := Option.some.inj hworking
      exact left_paced hwf hw.notNull hw.planned hwork hpaced
  | spots hw hwork =>
      obtain rfl := Option.some.inj hworking
      exact left_halfway hwf hw.notNull hw.planned hwork hstep
  | patching hw hwork =>
      obtain rfl := Option.some.inj hworking
      exact left_halfway hwf hw.notNull hw.planned hwork hstep
  | _ => cases hworking

theorem Sound.working?_of_isTerminal (h : Sound f source reference asked w)
    (hterminal : w.record.state.isTerminal) : w.working? = none := by
  obtain ⟨hrest, -⟩ := h.of_isTerminal hterminal
  rw [working?, hrest]

/-! ## What is stored -/

/-- What a run has stored, where `entered` says whether its filter was called. A move can only make
the filter start or end, so this is kept by every move, with `entered` growing along. -/
structure Written (f : Filter) (source : Image) (reference : Option Image) (entered : Prop)
    (w : WatchedRun) : Prop where
  begun : w.working?.isSome → entered
  stored : w.working? = none → (¬entered ∧ w.record.destination = .null)
    ∨ (entered ∧ Left f source reference w.record.destination)

theorem Written.left (h : Written f source reference entered w) (hended : w.working? = none)
    (hentered : entered) : Left f source reference w.record.destination := by
  rcases h.stored hended with ⟨hnot, -⟩ | ⟨-, hleft⟩
  · exact absurd hentered hnot
  · exact hleft

theorem Written.nothing (h : Written f source reference entered w) (hended : w.working? = none)
    (hnot : ¬entered) : w.record.destination = .null := by
  rcases h.stored hended with ⟨-, hnull⟩ | ⟨hentered, -⟩
  · exact hnull
  · exact absurd hentered hnot

theorem Written.move (h : Written f source reference entered w)
    (hleft : ∀ image, w.working? = some image → Left f source reference image) (m : Move) :
    Written f source reference (entered ∨ (w.move m).working?.isSome) (w.move m) := by
  refine ⟨Or.inr, fun hafter => ?_⟩
  have hiff : (entered ∨ (w.move m).working?.isSome) ↔ entered := by
    rw [hafter]
    exact or_iff_left Bool.false_ne_true
  rw [hiff]
  -- Of all moves only one that ends the work stores anything, and it stores what was at work.
  cases w.works_move m with
  | outside hbefore _ hdestination =>
      rw [hdestination]
      exact h.stored hbefore
  | begins _ hsome => cases hafter.symm.trans hsome
  | goes _ hsome => cases hafter.symm.trans hsome
  | ends hbefore _ hdestination =>
      have hentered : entered := h.begun (Option.isSome_of_eq_some hbefore)
      rw [hdestination]
      exact Or.inr ⟨hentered, hleft _ hbefore⟩

theorem written_moves (hp : p.value ≤ 100) (hwf : source.WellFormed) (schedule : List Move) :
    let start := new f source reference p
    InStep source (start.moves schedule).stage
      ∧ Written f source reference (start.Entered schedule) (start.moves schedule) := by
  intro start
  -- The schedule grows at its end, where all that is known after it can be used for one more move.
  induction schedule using List.reverseRecOn with
  | nil =>
      refine ⟨trivial, entered_nil.mpr, fun _ => Or.inl ⟨fun hentered => ?_, rfl⟩⟩
      cases entered_nil.mp hentered
  | append_singleton schedule m ih =>
      obtain ⟨hstep, hwritten⟩ := ih
      have hsound : Sound f source reference (start.AskedInTime schedule) (start.moves schedule) :=
        sound_moves hp schedule
      have hnext := hwritten.move (fun image hworking => hsound.left hwf hstep hworking) m
      rw [moves_concat, propext entered_concat]
      refine ⟨?_, hnext⟩
      rw [← hsound.sameSource] at hstep ⊢
      exact inStep_move hstep m

open Image.Store (Counted) in
theorem shown_moves (hp : p.value ≤ 100) (hwf : source.WellFormed) {s : Image.Store}
    (hs : Counted s []) {name target : String} (hname : s.image name = source)
    (hnames : name ≠ target) (schedule : List Move) :
    StoredRun.Shown target s
      (StoredRun.moves name target ⟨new f source reference p, s⟩ schedule) := by
  induction schedule using List.reverseRecOn with
  | nil => exact StoredRun.shown_new hs target f source reference p
  | append_singleton schedule m ih =>
      have hrun := StoredRun.run_moves name target ⟨new f source reference p, s⟩ schedule
      have hsound : Sound f source reference ((new f source reference p).AskedInTime schedule)
        ((new f source reference p).moves schedule) := sound_moves hp schedule
      have hstep : InStep source ((new f source reference p).moves schedule).stage :=
        (written_moves hp hwf schedule).1
      rw [StoredRun.moves, List.foldl_concat]
      refine ih.move hnames ?_ (fun image hworking => ?_) m
      · rw [hrun, hname, hsound.sameSource]
      · rw [hrun] at hworking
        have hleft := hsound.left hwf hstep hworking
        exact ⟨hleft.frame.wellFormed hwf hleft.notNull, hleft.frame.isNull.trans hleft.notNull⟩

/-- A run that was cancelled leaves nothing if its filter was never at work. Else it leaves an image
in the frame of the source in which whole units of the work are done: some of the rows are those of
the result, or the first spots of the list are repaired. Where images share their bytes, neither the
source nor anything else but the image that the filter was given shows a change. -/
theorem cancelled_leaves_units (hp : p.value ≤ 100) (f : Filter) (hwf : source.WellFormed)
    (reference : Option Image) (schedule : List Move) :
    let start := new f source reference p
    let w := start.moves schedule
    (w.record.state = .cancelled →
      (¬start.Entered schedule → w.record.destination = .null)
        ∧ (start.Entered schedule →
          w.record.destination.dimensions = source.dimensions
            ∧ w.record.destination.depth = source.depth
            ∧ w.record.destination.hasAlpha = source.hasAlpha
            ∧ w.record.destination.bytes.size = source.bytes.size
            ∧ f.MayLeave source reference w.record.destination))
      ∧ w.record.source = source
      ∧ ∀ (s : Image.Store) (name target : String), s.Counted [] → s.image name = source →
        name ≠ target →
        let v := StoredRun.moves name target ⟨start, s⟩ schedule
        v.run = w ∧ v.store.image name = source
          ∧ (∀ other, other ≠ target → v.store.image other = s.image other)
          ∧ (w.record.state = .cancelled → start.Entered schedule →
            v.store.image target = w.record.destination) := by
  intro start w
  have hsound : Sound f source reference (start.AskedInTime schedule) w := sound_moves hp schedule
  have hwritten : Written f source reference (start.Entered schedule) w :=
    (written_moves hp hwf schedule).2
  have hended (hstate : w.record.state = .cancelled) : w.working? = none :=
    hsound.working?_of_isTerminal (by rw [hstate]; rfl)
  refine ⟨fun hstate => ⟨fun hnot => ?_, fun hentered => ?_⟩, hsound.sameSource, ?_⟩
  · exact hwritten.nothing (hended hstate) hnot
  · obtain ⟨-, hframe, hunits⟩ := hwritten.left (hended hstate) hentered
    exact ⟨hframe.dimensions, hframe.depth, hframe.hasAlpha, hframe.size, hunits⟩
  · intro s name target hs hname hnames v
    have hshown : StoredRun.Shown target s v := shown_moves hp hwf hs hname hnames schedule
    have hrun : v.run = w := StoredRun.run_moves name target ⟨start, s⟩ schedule
    refine ⟨hrun, (hshown.others name hnames).trans hname, hshown.others, ?_⟩
    intro hstate hentered
    have hstored := hshown.stored
    rw [hrun] at hstored
    exact hstored (hended hstate) (hwritten.left (hended hstate) hentered).ne_null

/-- Five pixels side by side, of which the second and the fourth are too bright. -/
def twoBright : Image :=
  ⟨5, 1, .eight, false,
    #[10, 10, 10, 255, 200, 200, 200, 255, 30, 30, 30, 255, 210, 210, 210, 255, 50, 50, 50, 255]⟩

def repairBoth : Filter :=
  .new (.spotRepair ⟨.average, .twoDim, [⟨1, 0, 1, 1⟩, ⟨3, 0, 1, 1⟩]⟩)

/-- Cancellation is asked for when the run has looked at the flag before the first spot. So it is
seen before the second one. -/
def cancelledInSpot : List Move :=
  .call :: List.replicate 7 .go ++ [.cancel] ++ List.replicate 6 .go

def oneBright : Image :=
  ⟨5, 1, .eight, false,
    #[10, 10, 10, 255, 20, 20, 20, 255, 30, 30, 30, 255, 210, 210, 210, 255, 50, 50, 50, 255]⟩

theorem cancelled_leaves_units_inSpot :
    let start := new repairBoth twoBright none (.observed none)
    let w := start.moves cancelledInSpot
    let photo := Image.Store.empty.replace "photo" twoBright
    let v := StoredRun.moves "photo" "work" ⟨start, photo⟩ cancelledInSpot
    w.record.state = .cancelled ∧ start.Entered cancelledInSpot
      ∧ w.record.destination = oneBright ∧ repairBoth.MayLeave twoBright none oneBright
      ∧ v.store.image "photo" = twoBright ∧ v.store.image "work" = oneBright := by
  have hwf : twoBright.WellFormed := Or.inr (by decide)
  have hstate : ((new repairBoth twoBright none (.observed none)).moves
      cancelledInSpot).record.state = .cancelled := by
    decide +kernel
  have hentered : (new repairBoth twoBright none (.observed none)).Entered cancelledInSpot := by
    refine ⟨cancelledInSpot.take 7, List.take_prefix _ _, ?_⟩
    decide +kernel
  have hleft : ((new repairBoth twoBright none (.observed none)).moves
      cancelledInSpot).record.destination = oneBright := by
    decide +kernel
  have hcounted : (Image.Store.empty.replace "photo" twoBright).Counted [] :=
    Image.agree_empty.counted.replace "photo" twoBright
  have hphoto : (Image.Store.empty.replace "photo" twoBright).image "photo" = twoBright :=
    Image.Store.image_replace Image.agree_empty.counted hwf "photo" "photo"
  obtain ⟨hcancelled, -, hstored⟩ :=
    cancelled_leaves_units (p := .observed none) (Nat.zero_le 100) repairBoth hwf none
      cancelledInSpot
  obtain ⟨-, -, -, -, hunits⟩ := (hcancelled hstate).2 hentered
  obtain ⟨-, hsource, -, htarget⟩ := hstored _ "photo" "work" hcounted hphoto (by decide)
  have hwork := htarget hstate hentered
  rw [hleft] at hunits hwork
  exact ⟨hstate, hentered, hleft, hunits, hsource, hwork⟩

end WatchedRun

end Darkroom
