import Darkroom.Proofs.Filter.Plan
import Darkroom.Proofs.Image.Keeps

/-!
# What filters leave alone

Every kind of filter works inside the frame of its image, whatever its settings are and wherever it is
cancelled, and there are components of pixels that it never changes (`FilterSettings.untouched`):
alpha, for the kinds that only know colors, and all but one color for an adjustment of that color. No
step of the argument looks at a number that is computed: tables, factors and weights may be what they
like.

A filter carries out a plan, so the main result `apply_untouched` comes from `Plan.untouched`, which
goes through the kinds.
-/

namespace Darkroom

/-- The components that a filter never changes. Curves and automatic levels may have a table for
every component, so nothing is promised of these kinds. -/
def FilterSettings.untouched : FilterSettings → List Component
  | contrast settings =>
    match settings.channel with
    | .red => [.green, .blue, .alpha]
    | .green => [.red, .blue, .alpha]
    | .blue => [.red, .green, .alpha]
    | .luminosity | .alpha => [.alpha]
  | whiteBalance _ | autoExposure | equalize | normalize | spotRepair _ => [.alpha]
  | curves _ | autoLevels => []

/-! ## Tables -/

namespace Luts

theorem component_mapPixel (luts : Luts) {c : Component} (h : luts.table c = none) (p : Pixel) :
    (luts.mapPixel p).component c = p.component c := by
  cases c <;> simp only [Pixel.component, mapPixel, map, h, lookup]

theorem table_withTable {luts : Luts} {c changed : Component} (h : c ≠ changed) (f : Nat → Nat) :
    (luts.withTable changed f).table c = luts.table c := by
  cases changed <;> cases c <;> first | rfl | exact absurd rfl h

theorem table_empty (depth : Depth) (c : Component) : (empty depth).table c = none := by
  cases c <;> rfl

end Luts

theorem Contrast.table_luts {settings : Contrast} {c : Component}
    (h : c ∈ (FilterSettings.contrast settings).untouched) (depth : Depth) :
    (settings.luts depth).table c = none := by
  unfold FilterSettings.untouched at h
  unfold luts
  cases hchannel : settings.channel <;> simp only [hchannel] at h ⊢
  case red | green | blue =>
    rw [Luts.table_withTable, Luts.table_empty]
    rintro rfl
    simp at h
  case luminosity | alpha =>
    rw [List.mem_singleton.mp h]
    rfl

namespace Histogram

theorem table_equalizeColor (h : Histogram) (luts : Luts) {c changed : Component}
    (hother : c ≠ changed) : (h.equalizeColor luts changed).table c = luts.table c := by
  unfold equalizeColor
  dsimp only
  split
  · rfl
  · exact Luts.table_withTable hother _

theorem table_equalizing (h : Histogram) : h.equalizing.table .alpha = none := by
  simp only [equalizing, List.foldl_cons, List.foldl_nil]
  rw [table_equalizeColor h _ (by decide), table_equalizeColor h _ (by decide),
    table_equalizeColor h _ (by decide), Luts.table_empty]

theorem table_normalizing (h : Histogram) : h.normalizing.table .alpha = none := by
  unfold normalizing
  dsimp only
  split <;> rfl

end Histogram

/-! ## Spots -/

namespace Repair

open Image (Keeps keeps_mapPixels)

theorem keeps_one (interpolation : Interpolation) (direction : Direction) {image : Image}
    (hwf : image.WellFormed) (s : Spot) :
    Keeps [.alpha] image (one interpolation direction image s) := by
  unfold one
  split
  · unfold average
    dsimp only
    split
    · exact .refl _ image
    · refine keeps_mapPixels hwf fun c hc x y => ?_
      rw [List.mem_singleton.mp hc]
      split <;> rfl
  · unfold fitted
    refine keeps_mapPixels hwf fun c hc x y => ?_
    rw [List.mem_singleton.mp hc]
    dsimp only
    split <;> rfl

theorem keeps_all (interpolation : Interpolation) (direction : Direction) (total : Nat) :
    ∀ {spots : List Rect} {image : Image} (p : Progress) (done : Nat), image.WellFormed →
      image.isNull = false →
      Keeps [.alpha] image (all interpolation direction total image p done spots).1
  | [], image, p, done, _, _ => .refl _ image
  | rect :: rest, image, p, done, hwf, hnull => by
      rw [all_cons]
      split
      · cases spot? image rect with
        | none => exact keeps_all interpolation direction total p (done + 1) hwf hnull
        | some s =>
            have hone := keeps_one interpolation direction hwf s
            have hnull' : (one interpolation direction image s).isNull = false := by
              rw [hone.isNull, hnull]
            exact hone.trans (keeps_all interpolation direction total _ (done + 1)
              (hone.wellFormed hwf hnull) hnull')
      · exact .refl _ image

end Repair

/-! ## All kinds -/

section

open Image (Keeps keeps_processRows)

variable {source : Image}

theorem Filter.keeps_measuring {f : Filter} {reference : Option Image} {plan : Plan}
    {work : Histogram → Work} {kept : List Component}
    (h : ∀ (histogram : Histogram) (p : Progress), Keeps kept source
      ((work histogram).run source p).1)
    (hplan : f.measuringPlan source reference work = .ok plan) (p : Progress) :
    Keeps kept source (plan.work.run source p).1 := by
  unfold Filter.measuringPlan at hplan
  split at hplan
  · cases hplan
  · cases hplan
    exact h _ p

variable (hwf : source.WellFormed) (hnull : source.isNull = false)
include hwf hnull

theorem Luts.keeps_work {luts : Luts} {kept : List Component}
    (h : ∀ c ∈ kept, luts.table c = none) (band : Image.Band) (p : Progress) :
    Keeps kept source ((luts.work source band).run source p).1 :=
  keeps_processRows hwf hnull (fun c hc => luts.component_mapPixel (h c hc)) p band

theorem WhiteBalance.keeps_work (w : WhiteBalance) (p : Progress) :
    Keeps [.alpha] source ((w.work source).run source p).1 := by
  unfold WhiteBalance.work Work.run
  refine keeps_processRows hwf hnull (fun c hc p => ?_) p ⟨0, 100⟩
  rw [List.mem_singleton.mp hc]
  rfl

/-- The work of a plan keeps what the filter is said not to touch, one case for each kind. -/
theorem Plan.untouched {f : Filter} {reference : Option Image} {plan : Plan}
    (hplan : f.plan source reference = .ok plan) (p : Progress) :
    Keeps f.settings.untouched source (plan.work.run source p).1 := by
  unfold Filter.plan at hplan
  cases hsettings : f.settings <;> simp only [hsettings] at hplan
  case contrast settings =>
    cases hplan
    exact Luts.keeps_work hwf hnull (fun c hc => Contrast.table_luts hc source.depth) _ p
  case whiteBalance settings =>
    cases hplan
    exact settings.keeps_work hwf hnull p
  case curves settings =>
    cases hplan
    exact Luts.keeps_work hwf hnull (fun c hc => absurd hc List.not_mem_nil) _ p
  case spotRepair settings =>
    cases hplan
    exact Repair.keeps_all _ _ _ p 0 hwf hnull
  case autoExposure =>
    exact Filter.keeps_measuring (fun h p => (Balance.exposing h).keeps_work hwf hnull p) hplan p
  case autoLevels =>
    refine Filter.keeps_measuring (fun h p => Luts.keeps_work hwf hnull ?_ _ p) hplan p
    exact fun c hc => absurd hc List.not_mem_nil
  case equalize =>
    refine Filter.keeps_measuring (fun h p => Luts.keeps_work hwf hnull ?_ _ p) hplan p
    intro c hc
    rw [List.mem_singleton.mp hc]
    exact h.table_equalizing
  case normalize =>
    refine Filter.keeps_measuring (fun h p => Luts.keeps_work hwf hnull ?_ _ p) hplan p
    intro c hc
    rw [List.mem_singleton.mp hc]
    exact h.table_normalizing

end

namespace Filter

/-- A reference that can be measured beside an image. -/
theorem measured_of_reference {source : Image} {reference : Option Image}
    (h : ∀ image ∈ reference, image.isNull = false ∧ image.depth = source.depth) :
    ∃ image, measured source reference = .ok image := by
  cases reference with
  | none => exact ⟨source, rfl⟩
  | some image =>
      obtain ⟨hnull, hdepth⟩ := h image rfl
      refine ⟨image, ?_⟩
      simp [measured, hnull, hdepth]

/-- A filter on an image, and with nothing or an image of the same depth beside it, gives an image in
the same frame, and the bytes of all components that it does not touch are as before. -/
theorem apply_untouched (f : Filter) {source : Image} (hwf : source.WellFormed)
    (hnull : source.isNull = false) {reference : Option Image}
    (href : ∀ image ∈ reference, image.isNull = false ∧ image.depth = source.depth)
    (p : Progress) :
    ∃ result, f.apply source reference p = .ok result
      ∧ result.image.dimensions = source.dimensions ∧ result.image.depth = source.depth
      ∧ result.image.hasAlpha = source.hasAlpha
      ∧ result.image.bytes.size = source.bytes.size
      ∧ ∀ i, source.depth.componentAt i ∈ f.settings.untouched →
        result.image.bytes[i]? = source.bytes[i]? := by
  obtain ⟨image, himage⟩ := measured_of_reference href
  obtain ⟨plan, hplan⟩ := exists_plan himage f
  have h := Plan.untouched hwf hnull hplan (plan.reports.foldl Progress.post p)
  refine ⟨plan.run source p, ?_, h.dimensions, h.depth, h.hasAlpha, h.size, h.bytes⟩
  rw [apply_eq_plan, hplan]

def deepPair : Image :=
  ⟨2, 1, .sixteen, true, #[0, 1, 0, 2, 0, 3, 7, 8, 0, 4, 0, 5, 0, 6, 9, 10]⟩

def deepPixel : Image :=
  ⟨1, 1, .sixteen, false, #[0, 16, 0, 32, 0, 48, 255, 255]⟩

theorem apply_untouched_besideReference :
    deepPair.WellFormed ∧ deepPair.isNull = false
      ∧ deepPixel.isNull = false ∧ deepPixel.depth = deepPair.depth
      ∧ ∃ result, (Filter.new .normalize).apply deepPair (some deepPixel) .start = .ok result
        ∧ result.image.dimensions = ⟨2, 1⟩ ∧ result.image.bytes.size = 16
        ∧ result.image.bytes[6]? = some 7 ∧ result.image.bytes[7]? = some 8
        ∧ result.image.bytes[14]? = some 9 ∧ result.image.bytes[15]? = some 10 := by
  have hwf : deepPair.WellFormed := Or.inr (by decide)
  have href : ∀ image ∈ some deepPixel,
      image.isNull = false ∧ image.depth = deepPair.depth := by
    rintro image ⟨⟩
    exact ⟨rfl, rfl⟩
  obtain ⟨result, happly, hdimensions, -, -, hsize, hbytes⟩ :=
    apply_untouched (.new .normalize) hwf rfl href .start
  have halpha (i : Nat) (hi : deepPair.depth.componentAt i = .alpha) :
      result.image.bytes[i]? = deepPair.bytes[i]? :=
    hbytes i (List.mem_singleton.mpr hi)
  exact ⟨hwf, rfl, rfl, rfl, result, happly, hdimensions, hsize, halpha 6 rfl, halpha 7 rfl,
    halpha 14 rfl, halpha 15 rfl⟩

end Filter

end Darkroom
