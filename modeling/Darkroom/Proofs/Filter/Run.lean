import Darkroom.Filter.Run
import Darkroom.Proofs.Filter.Apply

/-!
# Finished runs

A run has a target only if it is finished, and it is finished only if the filter gave an image and
was not cancelled by then (`execute_finished`). If such a run is not marked as having used its
reference, its target is the image that the filter always gives without one (`run_reproducible`).
-/

namespace Darkroom

namespace FilterRun

theorem finished_of_enter {r : FilterRun} {state : RunState} {target : Image}
    (h : (r.enter state).target? = some target) : state = .finished ∧ target = r.destination := by
  by_cases hstate : state = .finished
  · subst hstate
    exact ⟨rfl, (Option.some.inj h).symm⟩
  · have hnone : (r.enter state).target? = none := if_neg hstate
    rw [hnone] at h
    cases h

theorem conclude_finished {r : FilterRun} {result : Filtered} {target : Image}
    (h : (r.conclude result).target? = some target) :
    result.progress.isRunning ∧ target = result.image
      ∧ (r.conclude result).filter = result.filter := by
  unfold conclude at h ⊢
  simp only at h ⊢
  split at h
  · rename_i hrunning
    rw [if_pos hrunning]
    exact ⟨hrunning, (finished_of_enter h).2, rfl⟩
  · cases (finished_of_enter h).1

/-- A finished run had an image to work on, and its filter was not cancelled. -/
theorem execute_finished {r : FilterRun} {target : Image} (h : r.execute.target? = some target) :
    r.source.isNull = false ∧ ∃ result, r.filter.apply r.source r.reference r.progress = .ok result
      ∧ result.progress.isRunning ∧ target = result.image ∧ r.execute.filter = result.filter := by
  cases hfault : r.fault? with
  | some e =>
      rw [execute, hfault] at h
      cases (finished_of_enter h).1
  | none =>
      have hnull : r.source.isNull = false := by
        cases hnull : r.source.isNull with
        | false => rfl
        | true =>
            rw [fault?, if_pos hnull] at hfault
            cases hfault
      refine ⟨hnull, ?_⟩
      unfold execute at h ⊢
      simp only [hfault] at h ⊢
      split at h
      · rename_i hrunning
        rw [if_pos hrunning]
        cases happly : r.filter.apply r.source r.reference r.progress with
        | error e =>
            rw [happly] at h
            cases (finished_of_enter h).1
        | ok result =>
            rw [happly] at h
            exact ⟨result, rfl, conclude_finished h⟩
      · cases (finished_of_enter h).1

section

variable {settings : FilterSettings} {source target : Image} {reference : Option Image}
  {p : Progress}

theorem run_finished {f : Filter} (h : (new f source reference p).run.target? = some target) :
    source.isNull = false ∧ ∃ result, f.apply source reference (p.post 0) = .ok result
      ∧ result.progress.isRunning ∧ target = result.image
      ∧ (new f source reference p).run.filter = result.filter :=
  execute_finished h

/-- A run of a new filter that is finished and reproducible left a filter behind that is like new,
and has the target that any such run of the filter without a reference has. -/
theorem run_reproducible (h : (new (.new settings) source reference p).run.target? = some target)
    (hcategory : (new (.new settings) source reference p).run.action.category = .reproducible) :
    source.isNull = false ∧ (new (.new settings) source reference p).run.filter = .new settings
      ∧ ∃ q, (Filter.new settings).apply source none .start = .ok ⟨.new settings, target, q⟩ := by
  obtain ⟨hnull, result, happly, hrunning, htarget, hfilter⟩ := run_finished h
  have hused : result.filter.usedReference = false := by
    cases hused : result.filter.usedReference with
    | false => rfl
    | true =>
        rw [action, hfilter, Filter.action, hused] at hcategory
        cases hcategory
  obtain ⟨work, image, hsteady, hwork⟩ := Filter.steady_apply settings source
  have hnone := Filter.apply_reference happly hused
  rw [hwork] at hnone
  cases hnone
  refine ⟨hnull, hfilter, (work .start).2, ?_⟩
  rw [hwork, htarget, hsteady.image_start, hsteady.image hrunning]

end

end FilterRun

end Darkroom
