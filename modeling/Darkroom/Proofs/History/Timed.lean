import Darkroom.History.Diagnostics
import Darkroom.Proofs.History.Verify

/-!
# What a watched replay shows

A replay that is watched with a clock takes the steps of a plain one, whatever the clock says, and
what it notes of a step is what the step says of itself together with the pixels that differ
(`Observed`). A step that changes no pixel is one after which `firstDifference?` finds nothing, because
steps keep the frame of the image (`changedPixels_eq_zero_iff`).
-/

namespace Darkroom

namespace StepMetrics

variable {before after : Image}

theorem changedPixels_le (before after : Image) :
    (between before after).changedPixels ≤ before.pixelCount := by
  rw [between]
  dsimp only
  split
  · have hle := List.length_filter_le (fun i => before.pixelAt i != after.pixelAt i)
      (List.range before.pixelCount)
    rwa [List.length_range] at hle
  · exact Nat.le_refl _

/-- In one frame, no pixel is counted exactly if none is found to differ. -/
theorem changedPixels_eq_zero_iff (h : Image.Keeps [] before after) :
    (between before after).changedPixels = 0 ↔ before.firstDifference? after = none := by
  have hgeometry := h.sameGeometry
  rw [Image.firstDifference?_eq_none_iff, between, if_pos hgeometry]
  dsimp only
  rw [List.length_eq_zero_iff, List.filter_eq_nil_iff]
  constructor
  · intro hnone
    refine ⟨hgeometry, h.isNull.symm, fun i hi => ?_⟩
    have hsame := hnone i (List.mem_range.mpr hi)
    simpa using hsame
  · rintro ⟨-, -, hpixels⟩ i hi
    simp [hpixels i (List.mem_range.mp hi)]

end StepMetrics

namespace Replay

variable {σ ι : Type} {registry : Registry}

/-! ## One step -/

/-- What is noted of the step of an action. Times are left out: they are what the clock says, and
nothing else depends on them. -/
structure Observed (registry : Registry) (before : Replay) (a : Action) (seen : StepDiagnostics) :
    Prop where
  identifier : seen.identifier = a.identifier
  version : seen.version = a.version
  status : seen.status = (step registry before a).1.status
  metrics : seen.metrics = .between before.image (step registry before a).2.image

theorem observed_timedStep (clock : Clock σ ι) (registry : Registry) (r : Replay) (a : Action)
    (s : σ) :
    Observed registry r a (r.timedStep clock registry a s).1
      ∧ (r.timedStep clock registry a s).2.1 = (step registry r a).2 :=
  ⟨⟨rfl, rfl, rfl, rfl⟩, rfl⟩

/-- What is noted of a step that was not applied is that it changed nothing. -/
theorem Observed.unchanged {before : Replay} {a : Action} {seen : StepDiagnostics}
    (h : Observed registry before a seen) (hstatus : seen.status ≠ .applied) :
    seen.metrics.changedPixels = 0 := by
  have hsame : (step registry before a).2.image = before.image := by
    rw [h.status, step_eq] at hstatus
    rw [step_eq]
    exact image_of_not_applied hstatus
  rw [h.metrics, hsame, StepMetrics.changedPixels_eq_zero_iff (.refl [] before.image),
    Image.firstDifference?_eq_none_iff]
  exact ⟨Image.sameGeometry_iff.mpr ⟨rfl, rfl, rfl⟩, rfl, fun _ _ => rfl⟩

/-! ## All steps -/

theorem finish_timedSteps (clock : Clock σ ι) (registry : Registry) : ∀ (h : History) (r : Replay)
    (s : σ), (timedSteps clock registry r h s).2.1 = finish registry r h
  | [], _, _ => rfl
  | a :: h, r, s => finish_timedSteps clock registry h (step registry r a).2
      (r.timedStep clock registry a s).2.2

/-- What is noted in one place is noted of the action in that place, at the replay of those before. -/
theorem observed_timedSteps (clock : Clock σ ι) (registry : Registry) : ∀ (h : History) (r : Replay)
    (s : σ) {i : Nat} {seen : StepDiagnostics},
    (timedSteps clock registry r h s).1[i]? = some seen →
      ∃ a, h[i]? = some a ∧ Observed registry (finish registry r (h.take i)) a seen
  | [], _, _, _, _, hseen => nomatch hseen
  | a :: h, r, s, 0, seen, hseen => by
      obtain rfl := Option.some.inj hseen
      exact ⟨a, rfl, (observed_timedStep clock registry r a s).1⟩
  | a :: h, r, s, i + 1, seen, hseen =>
      observed_timedSteps clock registry h (step registry r a).2
        (r.timedStep clock registry a s).2.2 hseen

theorem headers_timedSteps (clock : Clock σ ι) (registry : Registry) : ∀ (h : History) (r : Replay)
    (s : σ), (timedSteps clock registry r h s).1.map (fun seen => (seen.identifier, seen.version))
      = h.map fun a => (a.identifier, a.version)
  | [], _, _ => rfl
  | a :: h, r, s => congrArg ((a.identifier, a.version) :: ·)
      (headers_timedSteps clock registry h (step registry r a).2
        (r.timedStep clock registry a s).2.2)

theorem status_timedSteps (clock : Clock σ ι) (registry : Registry) : ∀ (h : History) (r : Replay)
    (s : σ), (timedSteps clock registry r h s).1.map (·.status)
      = (trace registry r h).map (·.1.status)
  | [], _, _ => rfl
  | a :: h, r, s => congrArg ((step registry r a).1.status :: ·)
      (status_timedSteps clock registry h (step registry r a).2
        (r.timedStep clock registry a s).2.2)

/-! ## The replay -/

/-- What a watched replay and its diagnostics have to do with a plain replay. The image and the
issues are the same, so watching has no effect, and the diagnostics can be told from the steps. -/
structure Agrees (registry : Registry) (base : Image) (h : History) (r : Replay)
    (d : ReplayDiagnostics) : Prop where
  replay : r = run registry base h
  /-- There is one entry for each action, with the status of its step. -/
  headers : d.steps.map (fun seen => (seen.identifier, seen.version))
    = h.map fun a => (a.identifier, a.version)
  status : d.steps.map (·.status) = (trace registry (start base) h).map (·.1.status)
  applied : d.applied = (run registry base h).applied
  dimensions : d.dimensions = (run registry base h).image.dimensions
  depth : d.depth = (run registry base h).image.depth
  resultHash : d.resultHash = (run registry base h).image.contentHash
  pixelCount : ∀ {i : Nat} {seen : StepDiagnostics}, d.steps[i]? = some seen →
    seen.metrics.pixelCount = (run registry base (h.take i)).image.pixelCount
  changedPixels_le : ∀ seen ∈ d.steps, seen.metrics.changedPixels ≤ seen.metrics.pixelCount
  unchanged : ∀ seen ∈ d.steps, seen.status ≠ .applied → seen.metrics.changedPixels = 0
  /-- A step changes no pixel exactly if none is found to differ between its two images. -/
  changed : ∀ {i : Nat} {seen : StepDiagnostics}, d.steps[i]? = some seen →
    (seen.metrics.changedPixels = 0
      ↔ (run registry base (h.take i)).image.firstDifference?
        (run registry base (h.take (i + 1))).image = none)

theorem pixels_timedSteps (clock : Clock σ ι) {base : Image} (hwf : base.WellFormed) {h : History}
    {s : σ} {i : Nat} {seen : StepDiagnostics}
    (hseen : (timedSteps clock registry (start base) h s).1[i]? = some seen) :
    seen.metrics = .between (run registry base (h.take i)).image
        (run registry base (h.take (i + 1))).image
      ∧ Image.Keeps [] (run registry base (h.take i)).image
        (run registry base (h.take (i + 1))).image
      ∧ (seen.status ≠ .applied → seen.metrics.changedPixels = 0) := by
  obtain ⟨a, ha, hobserved⟩ := observed_timedSteps clock registry h (start base) s hseen
  have hnext := step_run_take registry base ha
  have himage : (effect registry (run registry base (h.take i)).image a).2.2
      = (run registry base (h.take (i + 1))).image := by
    rw [← hnext, step_eq]
  refine ⟨?_, ?_, hobserved.unchanged⟩
  · rw [← hnext]
    exact hobserved.metrics
  · rw [← himage]
    exact keeps_effect (keeps_run hwf registry (h.take i)).2 registry a

/-- A watched replay is the plain one, whatever the clock says, and its diagnostics tell of the same
steps, images and changes. -/
theorem agrees_timed (clock : Clock σ ι) (registry : Registry) {base : Image}
    (hwf : base.WellFormed) (h : History) (s : σ) :
    Agrees registry base h (timed clock registry base h s).1
      (timed clock registry base h s).2.1 := by
  have hreplay : (timed clock registry base h s).1 = run registry base h :=
    finish_timedSteps clock registry h (start base) (clock.now s).2
  have hheaders := headers_timedSteps clock registry h (start base) (clock.now s).2
  have hstatus := status_timedSteps clock registry h (start base) (clock.now s).2
  have happlied := congrArg (List.countP fun status => status = StepStatus.applied) hstatus
  rw [List.countP_map, List.countP_map] at happlied
  refine ⟨hreplay, hheaders, hstatus, ?_, ?_, ?_, ?_, ?_, ?_, ?_, ?_⟩
  · rw [(accounted registry base h).applied, ReplayDiagnostics.applied, ← List.countP_eq_length_filter]
    exact happlied
  · exact congrArg (·.image.dimensions) hreplay
  · exact congrArg (·.image.depth) hreplay
  · exact congrArg (·.image.contentHash) hreplay
  · intro i seen hseen
    rw [(pixels_timedSteps clock hwf hseen).1]
    rfl
  · intro seen hseen
    obtain ⟨i, hi⟩ := List.mem_iff_getElem?.mp hseen
    rw [(pixels_timedSteps clock hwf hi).1]
    exact StepMetrics.changedPixels_le _ _
  · intro seen hseen hnot
    obtain ⟨i, hi⟩ := List.mem_iff_getElem?.mp hseen
    exact (pixels_timedSteps clock hwf hi).2.2 hnot
  · intro i seen hseen
    obtain ⟨hmetrics, hkeeps, -⟩ := pixels_timedSteps clock hwf hseen
    rw [hmetrics]
    exact StepMetrics.changedPixels_eq_zero_iff hkeeps

def ticking : Clock Nat Nat :=
  ⟨fun s => (s, s + 1), fun since s => (⟨s - since⟩, s + 1)⟩

def darkMiddle : Image :=
  ⟨3, 1, .eight, true, #[10, 10, 10, 255, 0, 0, 0, 255, 30, 30, 30, 255]⟩

def repairAndMore : History :=
  [(Filter.new (.spotRepair ⟨.average, .twoDim, [⟨1, 0, 1, 1⟩]⟩)).action,
    ⟨"unknown", 1, .reproducible, none, []⟩]

theorem agrees_timed_darkMiddle :
    let d := (timed ticking .builtin darkMiddle repairAndMore 0).2.1
    darkMiddle.WellFormed ∧ d.applied = 1
      ∧ (∀ seen, d.steps[0]? = some seen →
        seen.metrics.pixelCount = 3 ∧ seen.metrics.changedPixels ≠ 0)
      ∧ ∀ seen, d.steps[1]? = some seen → seen.metrics.changedPixels = 0 := by
  intro d
  have hwf : darkMiddle.WellFormed := Or.inr (by decide)
  have hagrees := agrees_timed ticking .builtin hwf repairAndMore 0
  have happlied : (run .builtin darkMiddle repairAndMore).applied = 1 := by decide +kernel
  have hfirst : darkMiddle.firstDifference?
      (run .builtin darkMiddle (repairAndMore.take 1)).image ≠ none := by
    decide +kernel
  have hsecond : (run .builtin darkMiddle (repairAndMore.take 1)).image.firstDifference?
      (run .builtin darkMiddle (repairAndMore.take 2)).image = none := by
    decide +kernel
  refine ⟨hwf, hagrees.applied.trans happlied, fun seen hseen => ⟨?_, ?_⟩, fun seen hseen => ?_⟩
  · exact hagrees.pixelCount hseen
  · exact fun hzero => hfirst ((hagrees.changed hseen).mp hzero)
  · exact (hagrees.changed hseen).mpr hsecond

end Replay

end Darkroom
