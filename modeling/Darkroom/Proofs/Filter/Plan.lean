import Darkroom.Filter.Plan
import Darkroom.Filter.Run
import Darkroom.Proofs.Filter.Apply

/-!
# Filters do what they plan

Running a filter is carrying out its plan (`apply_eq_plan`). The work of a plan is steady, so a filter
that is not cancelled gives the result of its plan (`apply_of_plan`).
-/

namespace Darkroom

def Work.result (source : Image) : Work → Image
  | rows _ op => source.everyRow op
  | spots repair => Repair.everySpot repair.interpolation repair.direction source repair.spots

theorem Work.steady (work : Work) (source : Image) :
    Steady (work.run source) (work.result source) := by
  cases work with
  | rows band op => exact Image.steady_processRows source band op
  | spots repair => exact steady_repair repair source

theorem Steady.posts {work : Progress → Image × Progress} {result : Image} (h : Steady work result)
    (reports : List Nat) : Steady (fun p => work (reports.foldl Progress.post p)) result := by
  induction reports with
  | nil => exact h
  | cons percent reports ih => exact ih.post percent

namespace Filter

variable {f : Filter} {source : Image} {reference : Option Image}

theorem measuring_eq_plan {work : Histogram → Progress → Image × Progress}
    {planned : Histogram → Work}
    (h : ∀ histogram p, work histogram p = (planned histogram).run source p)
    (p : Progress) :
    f.measuring source reference p work = match f.measuringPlan source reference planned with
      | .error e => .error e
      | .ok plan => .ok (plan.run source p) := by
  rw [measuring, measuringPlan]
  cases measured source reference with
  | error e => rfl
  | ok image => simp only [h, Plan.run, List.foldl_cons, List.foldl_nil]

theorem apply_eq_plan (f : Filter) (source : Image) (reference : Option Image) (p : Progress) :
    f.apply source reference p = match f.plan source reference with
      | .error e => .error e
      | .ok plan => .ok (plan.run source p) := by
  unfold apply plan
  cases f.settings with
  | contrast | whiteBalance | curves | spotRepair => rfl
  | autoExposure | autoLevels | equalize | normalize =>
      dsimp only
      refine measuring_eq_plan ?_ p
      intro histogram p
      rfl

/-- A filter that can measure what it is to measure has a plan. -/
theorem exists_plan {image : Image} (h : measured source reference = .ok image) (f : Filter) :
    ∃ plan, f.plan source reference = .ok plan := by
  unfold plan
  cases f.settings with
  | contrast | whiteBalance | curves | spotRepair => exact ⟨_, rfl⟩
  | autoExposure | autoLevels | equalize | normalize =>
      simp only [measuringPlan, h]
      exact ⟨_, rfl⟩

theorem apply_of_plan {plan : Plan} (h : f.plan source reference = .ok plan) :
    ∃ result, f.apply source reference .start = .ok result ∧ result.filter = plan.filter
      ∧ result.image = plan.work.result source := by
  refine ⟨plan.run source .start, ?_, rfl, ?_⟩
  · rw [apply_eq_plan, h]
  · exact ((plan.work.steady source).posts plan.reports).image_start

end Filter

/-- A run whose images are in order has an image to measure. -/
theorem FilterRun.measured_of_fault? {r : FilterRun} (h : r.fault? = none) :
    r.source.isNull = false ∧ ∃ image, Filter.measured r.source r.reference = .ok image := by
  unfold FilterRun.fault? at h
  split at h
  · cases h
  · rename_i hnull
    refine ⟨Bool.eq_false_iff.mpr hnull, ?_⟩
    split at h
    · cases h
    · rename_i image himage
      exact ⟨image, himage⟩

end Darkroom
