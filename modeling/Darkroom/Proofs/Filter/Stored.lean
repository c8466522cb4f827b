import Darkroom.Filter.Stored
import Darkroom.Proofs.Image.Sharing

/-!
# The source is not written to

A filter works on its image until the run stores it (`works_move`). In a store the name of that image
shares the bytes of the source at first, and it is detached before it is overwritten, so at every
moment it shows the image that the filter is at work on, and no other name shows anything new
(`Shown.move`).
-/

namespace Darkroom

/-! ## The image at work -/

namespace WatchedRun

/-- What a move may mean for the image that a filter is at work on. A store has to follow these four
kinds of moves and no others. -/
inductive Works (w w' : WatchedRun) : Prop where
  | outside : w.working? = none → w'.working? = none →
      w'.record.destination = w.record.destination → Works w w'
  | begins : w.working? = none → w'.working? = some w.record.source → Works w w'
  | goes {old new : Image} : w.working? = some old → w'.working? = some new → Works w w'
  | ends {image : Image} : w.working? = some image → w'.working? = none →
      w'.record.destination = image → Works w w'

/-- A move that leaves the stage and the images as they are. -/
theorem works_same {w w' : WatchedRun} (hstage : w'.stage = w.stage)
    (hsource : w'.record.source = w.record.source)
    (hdestination : w'.record.destination = w.record.destination) : Works w w' := by
  have hsame : w'.working? = w.working? := by rw [working?, working?, hstage, hsource]
  cases hworking : w.working? with
  | none => exact .outside hworking (hsame.trans hworking) hdestination
  | some image => exact .goes hworking (hsame.trans hworking)

theorem works_advance (w : WatchedRun) : Works w w.advance := by
  obtain ⟨r, published, stage, telling⟩ := w
  cases stage with
  | resting | publishing | opening | closing => exact .outside rfl rfl rfl
  | entering state =>
      rw [advance]
      dsimp only
      split
      · exact .outside rfl rfl rfl
      · exact .outside rfl rfl rfl
  | examining =>
      rw [advance]
      dsimp only
      split
      · exact .outside rfl rfl rfl
      · exact .outside rfl rfl rfl
  | admitting =>
      rw [advance]
      dsimp only
      repeat' split
      · exact .outside rfl rfl rfl
      · exact .begins rfl rfl
      · exact .outside rfl rfl rfl
  | reporting reports work =>
      cases reports with
      | nil => cases work <;> exact .goes rfl rfl
      | cons => exact .goes rfl rfl
  | rows pool =>
      rw [advance]
      dsimp only
      split
      · exact .ends rfl rfl rfl
      · exact .goes rfl rfl
  | spots repair image done rest =>
      cases rest with
      | nil => exact .ends rfl rfl rfl
      | cons rect rest =>
          rw [advance]
          dsimp only
          split
          · exact .goes rfl rfl
          · exact .ends rfl rfl rfl
  | patching repair image done rect rest =>
      rw [advance]
      dsimp only
      split
      · exact .goes rfl rfl
      · exact .goes rfl rfl
  | checking =>
      rw [advance]
      dsimp only
      split
      · exact .outside rfl rfl rfl
      · exact .outside rfl rfl rfl

theorem works_move (w : WatchedRun) (m : Move) : Works w (w.move m) := by
  cases m with
  | cancel => exact works_same rfl rfl rfl
  | go =>
      rw [move]
      split
      · exact works_same rfl rfl rfl
      · exact w.works_advance
  | call =>
      rw [move]
      split
      · rename_i hrest
        split
        · refine .outside ?_ rfl rfl
          rw [working?, hrest]
        · exact works_same rfl rfl rfl
      · exact works_same rfl rfl rfl
  | row y =>
      rw [move]
      split
      · rename_i pool htelling hrows
        have hworking : w.working? = some (pool.image w.record.source) := by
          rw [working?, hrows]
        exact .goes hworking rfl
      · exact works_same rfl rfl rfl

end WatchedRun

/-! ## The store -/

section

open Image (Store)
open Image.Store (Counted)

variable {s : Store} {source target : String}

/-- Overwriting a name in bytes of its own leaves all others alone. -/
theorem Image.Store.Counted.overwrite (h : Counted s []) {name : String} {old : Image}
    (himage : s.image name = old) (hwf : old.WellFormed) (hnull : old.isNull = false)
    (new : Image) :
    Counted (s.overwrite name new) [] ∧ ∀ other,
      (s.overwrite name new).image other = if other = name then new else s.image other := by
  subst himage
  have hsame := Store.image_detach h hwf
  obtain ⟨a, ha⟩ := Store.address_of_image (s.detach name) name (by rwa [hsame])
  refine ⟨(h.detach name).write new ha, fun other => ?_⟩
  rw [Store.overwrite, Store.image_write (h.detach name) new ha (Store.owners_detach h ha), hsame]

/-- What the names of a store show during a run, where `s` is the store before it. All names but the
target show what they showed then, among them that of the source. -/
structure StoredRun.Shown (target : String) (s : Store) (v : StoredRun) : Prop where
  counted : Counted v.store []
  others : ∀ other, other ≠ target → v.store.image other = s.image other
  working : ∀ image, v.run.working? = some image → v.store.image target = image
  stored : v.run.working? = none → v.run.record.destination ≠ .null →
    v.store.image target = v.run.record.destination

namespace StoredRun

theorem shown_new (h : Counted s []) (target : String) (f : Filter) (image : Image)
    (reference : Option Image) (p : Progress) :
    Shown target s ⟨.new f image reference p, s⟩ where
  counted := h
  others _ _ := rfl
  working _ hworking := by cases hworking
  stored _ hne := absurd rfl hne

theorem Shown.move {v : StoredRun} (h : Shown target s v) (hnames : source ≠ target)
    (hsource : s.image source = v.run.record.source)
    (hold : ∀ image, v.run.working? = some image → image.WellFormed ∧ image.isNull = false)
    (m : Move) : Shown target s (v.move source target m) := by
  rw [StoredRun.move]
  cases v.run.works_move m with
  | outside hbefore hafter hdestination =>
      rw [hbefore, hafter]
      refine ⟨h.counted, h.others, fun image hworking => ?_, fun _ hne => ?_⟩
      · cases hafter.symm.trans hworking
      · dsimp only at hne ⊢
        rw [hdestination] at hne ⊢
        exact h.stored hbefore hne
  | begins hbefore hafter =>
      rw [hbefore, hafter]
      obtain ⟨hcounted, himage⟩ := h.counted.share target source
      refine ⟨hcounted, fun other hother => ?_, fun image hworking => ?_, fun hnone => ?_⟩
      · exact (himage other).trans ((if_neg hother).trans (h.others other hother))
      · obtain rfl := Option.some.inj (hafter.symm.trans hworking)
        exact (himage target).trans ((if_pos rfl).trans ((h.others source hnames).trans hsource))
      · cases hafter.symm.trans hnone
  | @goes old new hbefore hafter =>
      rw [hbefore, hafter]
      have hshown := h.working old hbefore
      obtain ⟨hwf, hnull⟩ := hold old hbefore
      obtain ⟨hcounted, himage⟩ := h.counted.overwrite hshown hwf hnull new
      rw [Store.follow]
      -- Rows and spots that change nothing are not told apart from moves that touch no image.
      by_cases hsame : new = old
      · rw [if_pos hsame]
        refine ⟨h.counted, h.others, fun image hworking => ?_, fun hnone => ?_⟩
        · obtain rfl := Option.some.inj (hafter.symm.trans hworking)
          exact hshown.trans hsame.symm
        · cases hafter.symm.trans hnone
      · rw [if_neg hsame]
        refine ⟨hcounted, fun other hother => ?_, fun image hworking => ?_, fun hnone => ?_⟩
        · exact (himage other).trans ((if_neg hother).trans (h.others other hother))
        · obtain rfl := Option.some.inj (hafter.symm.trans hworking)
          exact (himage target).trans (if_pos rfl)
        · cases hafter.symm.trans hnone
  | @ends old hbefore hafter hdestination =>
      rw [hbefore, hafter]
      refine ⟨h.counted, h.others, fun image hworking => ?_, fun _ _ => ?_⟩
      · cases hafter.symm.trans hworking
      · exact (h.working old hbefore).trans hdestination.symm

theorem run_moves (source target : String) (v : StoredRun) (schedule : List Move) :
    (v.moves source target schedule).run = v.run.moves schedule := by
  induction schedule generalizing v with
  | nil => rfl
  | cons m schedule ih => exact ih (v.move source target m)

end StoredRun

end

end Darkroom
