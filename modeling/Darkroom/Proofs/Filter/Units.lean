import Darkroom.Proofs.Filter.Untouched
import Darkroom.Proofs.Image.RowPool

/-!
# Units of work

The work of a plan is made of units: rows for seven of the kinds, spots for the eighth
(`work_of_plan`). When work stops between two units the image is in between the source and the
result. Rows do not know of each other, so any of them may be done (`mayLeave_rows`). A spot is
repaired from the pixels around it, among which there may be repaired ones, so spots are done in
their order (`mayLeave_spots`).
-/

namespace Darkroom

/-! ## What may be left -/

/-- The images that a filter may leave when it is cancelled at work. Rows are done in any order, so
any of them may be missing; spots are repaired in order, so the rest of the list is. -/
structure Filter.MayLeave (f : Filter) (source : Image) (reference : Option Image)
    (image : Image) : Prop where
  rows : f.kind ≠ .spotRepair → ∃ result, f.apply source reference .start = .ok result
    ∧ ∀ y < source.height.toNat, image.row y = source.row y ∨ image.row y = result.image.row y
  spots : ∀ repair, f.settings = .spotRepair repair → ∃ first, first <+: repair.spots
    ∧ ∃ result, { f with settings := .spotRepair { repair with spots := first } }.apply source
        reference .start = .ok result ∧ image = result.image

/-! ## Rows -/

theorem Image.row_everyRow {image : Image} (hwf : image.WellFormed) (hnull : image.isNull = false)
    {op : RowOp} (hop : ∀ y row, (op y row).size = row.size) {y : Nat}
    (hy : y < image.height.toNat) : (image.everyRow op).row y = op y (image.row y) := by
  rw [everyRow, hnull, if_neg Bool.false_ne_true]
  refine row_withRows (fun row hrow => ?_) ?_
  · obtain ⟨i, hi, rfl⟩ := List.mem_mapIdx.mp hrow
    rw [length_rows] at hi
    have hget := (of_getElem?_rows (List.getElem?_eq_getElem (by rwa [length_rows]))).2
    rw [hop, hget, hwf.size_row hi]
  · rw [List.getElem?_mapIdx, getElem?_rows hy, Option.map_some]

/-! ## Spots -/

theorem Repair.keeps_everySpot (repair : SpotRepair) {source : Image} (hwf : source.WellFormed)
    (hnull : source.isNull = false) :
    Image.Keeps [.alpha] source
      (everySpot repair.interpolation repair.direction source repair.spots) := by
  rw [← (steady_repair repair source).image_start]
  exact keeps_all _ _ _ .start 0 hwf hnull

theorem Repair.everySpot_concat (interpolation : Interpolation) (direction : Direction)
    (image : Image) (first : List Rect) (rect : Rect) :
    everySpot interpolation direction image (first ++ [rect])
      = oneSpot interpolation direction (everySpot interpolation direction image first) rect :=
  List.foldl_concat ..

/-! ## Plans -/

namespace Filter

variable {f : Filter} {source : Image} {reference : Option Image} {plan : Plan}

theorem work_of_measuringPlan {work : Histogram → Work}
    (h : ∀ histogram, ∃ band g, work histogram = .rows band (Image.pixelOp source.depth g))
    (hplan : f.measuringPlan source reference work = .ok plan) :
    ∃ band g, plan.work = .rows band (Image.pixelOp source.depth g) := by
  unfold measuringPlan at hplan
  split at hplan
  · cases hplan
  · cases hplan
    exact h _

/-- The repair of spots is work on spots, and all other kinds change pixels row by row. -/
theorem work_of_plan (hplan : f.plan source reference = .ok plan) :
    (∃ repair, f.settings = .spotRepair repair ∧ plan.work = .spots repair)
      ∨ (f.kind ≠ .spotRepair ∧ ∃ band g, plan.work = .rows band (Image.pixelOp source.depth g)) := by
  unfold Filter.plan at hplan
  unfold Filter.kind
  cases hsettings : f.settings <;> simp only [hsettings] at hplan
  case spotRepair repair =>
    cases hplan
    exact Or.inl ⟨repair, rfl, rfl⟩
  case contrast | whiteBalance | curves =>
    cases hplan
    exact Or.inr ⟨by rintro ⟨⟩, _, _, rfl⟩
  case autoExposure | autoLevels | equalize | normalize =>
    exact Or.inr ⟨by rintro ⟨⟩, work_of_measuringPlan (fun histogram => ⟨_, _, rfl⟩) hplan⟩

/-- Work on rows leaves them as long as they were. -/
theorem size_rowOp (hplan : f.plan source reference = .ok plan) {band : Image.Band}
    {op : Image.RowOp} (hwork : plan.work = .rows band op) (y : Nat) (row : Image.Row) :
    (op y row).size = row.size := by
  rcases work_of_plan hplan with ⟨repair, -, hspots⟩ | ⟨-, band', g, hrows⟩
  · cases hspots.symm.trans hwork
  · obtain ⟨rfl, rfl⟩ := Work.rows.inj (hrows.symm.trans hwork)
    exact Array.size_ofFn

/-- Rows are left as they were, or as they are in the result. -/
theorem mayLeave_rows (hwf : source.WellFormed) (hnull : source.isNull = false)
    (hplan : f.plan source reference = .ok plan) {band : Image.Band} {op : Image.RowOp}
    (hwork : plan.work = .rows band op) {image : Image}
    (h : ∀ y < source.height.toNat, image.row y = source.row y ∨ image.row y = op y (source.row y)) :
    f.MayLeave source reference image := by
  obtain ⟨result, happly, -, himage⟩ := apply_of_plan hplan
  have hkind : f.kind ≠ .spotRepair := by
    rcases work_of_plan hplan with ⟨repair, -, hspots⟩ | ⟨hkind, -⟩
    · cases hspots.symm.trans hwork
    · exact hkind
  refine ⟨fun _ => ⟨result, happly, fun y hy => ?_⟩, fun repair hrepair => ?_⟩
  · rw [himage, hwork, Work.result, Image.row_everyRow hwf hnull (size_rowOp hplan hwork) hy]
    exact h y hy
  · exact absurd (congrArg FilterSettings.kind hrepair) hkind

/-- The first spots of the list are repaired. -/
theorem mayLeave_spots (hplan : f.plan source reference = .ok plan) {repair : SpotRepair}
    (hwork : plan.work = .spots repair) {first : List Rect} (hfirst : first <+: repair.spots)
    {image : Image}
    (himage : image = Repair.everySpot repair.interpolation repair.direction source first) :
    f.MayLeave source reference image := by
  rcases work_of_plan hplan with ⟨repair', hsettings, hspots⟩ | ⟨-, band, g, hrows⟩
  · obtain rfl := Work.spots.inj (hspots.symm.trans hwork)
    refine ⟨fun hkind => absurd (congrArg FilterSettings.kind hsettings) hkind, ?_⟩
    intro repair hrepair
    obtain rfl := FilterSettings.spotRepair.inj (hsettings.symm.trans hrepair)
    have hpart : { f with settings := .spotRepair { repair' with spots := first } }.plan source
        reference = .ok ⟨_, [], .spots { repair' with spots := first }⟩ := rfl
    obtain ⟨result, happly, -, hresult⟩ := apply_of_plan hpart
    exact ⟨first, hfirst, result, happly, himage.trans hresult.symm⟩
  · cases hrows.symm.trans hwork

end Filter

end Darkroom
