import Darkroom.Filter.Apply
import Darkroom.Proofs.Steady

/-!
# What a filter gives

Without a reference image the work of every kind of filter is steady (`steady_apply`): it gives one
image, whoever observes it, unless it is cancelled. With a reference image it gives the same as
without one, unless the filter says that it measured the reference (`apply_reference`).
-/

namespace Darkroom

/-! ## Spots -/

namespace Repair

/-- The image with the spot of one rectangle repaired. A rectangle without a pixel in the image has
no spot and leaves the image alone, which is no fault. -/
def oneSpot (interpolation : Interpolation) (direction : Direction) (image : Image) (rect : Rect) :
    Image :=
  match spot? image rect with
  | none => image
  | some s => one interpolation direction image s

def everySpot (interpolation : Interpolation) (direction : Direction) (image : Image)
    (spots : List Rect) : Image :=
  spots.foldl (oneSpot interpolation direction) image

theorem everySpot_cons (interpolation : Interpolation) (direction : Direction) (image : Image)
    (rect : Rect) (rest : List Rect) :
    everySpot interpolation direction image (rect :: rest)
      = everySpot interpolation direction (oneSpot interpolation direction image rect) rest :=
  (rfl)

theorem oneSpot_none {interpolation : Interpolation} {direction : Direction} {image : Image}
    {rect : Rect} (h : spot? image rect = none) :
    oneSpot interpolation direction image rect = image := by
  unfold oneSpot
  simp only [h]

theorem oneSpot_some {interpolation : Interpolation} {direction : Direction} {image : Image}
    {rect : Rect} {s : Spot} (h : spot? image rect = some s) :
    oneSpot interpolation direction image rect = one interpolation direction image s := by
  unfold oneSpot
  simp only [h]

theorem all_nil (interpolation : Interpolation) (direction : Direction) (total : Nat)
    (image : Image) (p : Progress) (done : Nat) :
    all interpolation direction total image p done [] = (image, p) :=
  (rfl)

theorem all_cons (interpolation : Interpolation) (direction : Direction) (total : Nat)
    (image : Image) (p : Progress) (done : Nat) (rect : Rect) (rest : List Rect) :
    all interpolation direction total image p done (rect :: rest)
      = if p.isRunning then
          match spot? image rect with
          | none => all interpolation direction total image p (done + 1) rest
          | some s =>
            all interpolation direction total (one interpolation direction image s)
              (p.postFraction (done + 1) total 0 100) (done + 1) rest
        else (image, p) :=
  (rfl)

/-- Once a spot is left out the rest is left out as well. -/
theorem all_running {interpolation : Interpolation} {direction : Direction} {total : Nat}
    {spots : List Rect} :
    ∀ {image : Image} {p : Progress} {done : Nat},
      (all interpolation direction total image p done spots).2.isRunning →
        p.isRunning ∧ (all interpolation direction total image p done spots).1
          = everySpot interpolation direction image spots := by
  induction spots with
  | nil =>
      intro image p done h
      rw [all_nil] at h
      exact ⟨h, by rw [all_nil, everySpot, List.foldl_nil]⟩
  | cons rect rest ih =>
      intro image p done h
      cases hp : p.isRunning with
      | false =>
          rw [all_cons, hp, if_neg Bool.false_ne_true, hp] at h
          exact absurd h Bool.false_ne_true
      | true =>
          rw [all_cons, hp, if_pos rfl] at h ⊢
          refine ⟨rfl, ?_⟩
          rw [everySpot_cons]
          cases hspot : spot? image rect with
          | none =>
              rw [oneSpot_none hspot]
              simp only [hspot] at h ⊢
              exact (ih h).2
          | some s =>
              rw [oneSpot_some hspot]
              simp only [hspot] at h ⊢
              exact (ih h).2

theorem all_unobserved {interpolation : Interpolation} {direction : Direction} {total : Nat} :
    ∀ {spots : List Rect} {image : Image} {p : Progress} {done : Nat}, p.Unobserved →
      (all interpolation direction total image p done spots).2.Unobserved
  | [], _, _, _, h => by
      rw [all_nil]
      exact h
  | rect :: rest, image, p, done, h => by
      rw [all_cons, if_pos h.running]
      cases hspot : spot? image rect with
      | none => exact all_unobserved h
      | some s => exact all_unobserved (h.postFraction _ _ _ _)

end Repair

theorem steady_repair (r : SpotRepair) (image : Image) :
    Steady (r.apply image) (Repair.everySpot r.interpolation r.direction image r.spots) where
  running h := (Repair.all_running h).1
  image h := (Repair.all_running h).2
  unobserved h := Repair.all_unobserved h

/-! ## All kinds -/

theorem steady_luts (luts : Luts) (image : Image) (band : Image.Band) :
    ∃ result, Steady (fun p => luts.apply image p band) result :=
  ⟨_, Image.steady_processRows image band (Image.pixelOp image.depth luts.mapPixel)⟩

theorem steady_balance (w : WhiteBalance) (image : Image) :
    ∃ result, Steady (w.apply image) result :=
  ⟨_, Image.steady_processRows image ⟨0, 100⟩ _⟩

namespace Filter

section Measuring

variable {f : Filter} {source : Image} {work : Histogram → Progress → Image × Progress}

/-- The kinds that measure an image are steady if the work on the histogram is. -/
theorem steady_measuring {result : Image} (h : Steady (work (.ofImage source)) result) :
    ∃ work' result, Steady work' result ∧ ∀ p, f.measuring source none p work
      = .ok ⟨{ f with usedReference := false }, (work' p).1, (work' p).2⟩ :=
  ⟨_, result, h.post 10, fun _ => rfl⟩

theorem measuring_reference {reference : Option Image} {p : Progress} {result : Filtered}
    (h : f.measuring source reference p work = .ok result)
    (hused : result.filter.usedReference = false) : f.measuring source none p work = .ok result := by
  have hnone : reference = none := by
    rw [measuring] at h
    split at h
    · cases h
    · cases h
      exact Option.isNone_iff_eq_none.mp (Option.isSome_eq_false_iff.mp hused)
  rw [hnone] at h
  exact h

end Measuring

/-- Without a reference a new filter never fails, and its work is steady. -/
theorem steady_apply (settings : FilterSettings) (source : Image) :
    ∃ work result, Steady work result ∧ ∀ p,
      (Filter.new settings).apply source none p = .ok ⟨.new settings, (work p).1, (work p).2⟩ := by
  cases settings with
  | contrast settings =>
      obtain ⟨result, h⟩ := steady_luts (settings.luts source.depth) source ⟨0, 100⟩
      exact ⟨_, result, h, fun p => rfl⟩
  | whiteBalance settings =>
      obtain ⟨result, h⟩ := steady_balance settings source
      exact ⟨_, result, h, fun p => rfl⟩
  | curves settings =>
      obtain ⟨result, h⟩ := steady_luts ((Curves.ofSettings settings).converted source.depth).luts
        source ⟨5, 100⟩
      exact ⟨_, result, h.post 5, fun p => rfl⟩
  | spotRepair settings => exact ⟨_, _, steady_repair settings source, fun p => rfl⟩
  | autoExposure =>
      obtain ⟨result, h⟩ := steady_balance (Balance.exposing (.ofImage source)) source
      simp only [Filter.apply, Filter.new]
      exact steady_measuring h
  | autoLevels =>
      obtain ⟨result, h⟩ := steady_luts ((Histogram.ofImage source).autoLevels Float).luts source
        ⟨10, 100⟩
      simp only [Filter.apply, Filter.new]
      exact steady_measuring h
  | equalize =>
      obtain ⟨result, h⟩ := steady_luts (Histogram.ofImage source).equalizing source ⟨10, 100⟩
      simp only [Filter.apply, Filter.new]
      exact steady_measuring h
  | normalize =>
      obtain ⟨result, h⟩ := steady_luts (Histogram.ofImage source).normalizing source ⟨10, 100⟩
      simp only [Filter.apply, Filter.new]
      exact steady_measuring h

/-- A filter that did not measure the reference did not depend on it. -/
theorem apply_reference {settings : FilterSettings} {source : Image} {reference : Option Image}
    {p : Progress} {result : Filtered}
    (h : (Filter.new settings).apply source reference p = .ok result)
    (hused : result.filter.usedReference = false) :
    (Filter.new settings).apply source none p = .ok result := by
  cases settings with
  | contrast settings => exact h
  | whiteBalance settings => exact h
  | curves settings => exact h
  | spotRepair settings => exact h
  | autoExposure | autoLevels | equalize | normalize =>
      simp only [Filter.apply, Filter.new] at h ⊢
      exact measuring_reference h hused

end Filter

end Darkroom
