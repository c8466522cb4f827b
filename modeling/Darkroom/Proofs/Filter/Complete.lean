import Darkroom.Proofs.Filter.Equalize
import Darkroom.Proofs.Filter.FlatLevels
import Darkroom.Proofs.Filter.Normalize
import Darkroom.Proofs.Image.Stored
import Darkroom.Proofs.Tone.Curves.Transfer

/-!
# Tables are complete

Whatever the settings, levels or curves are and whatever image was measured, a table has an entry for
every value of its depth and no entry lies outside of it (`Luts.Complete`). Of the numbers that go into
an entry nothing is used but that the last step keeps it between zero and the largest value; the tables
by rank and by range have no such step, and their quotients stay inside by themselves.

So no value misses its table and no mapped pixel loses anything when it is stored (`Luts.Applicable`).
-/

namespace Darkroom

namespace Luts

/-! ## Complete tables -/

/-- Tables with an entry for each value of a depth, none of them outside of it. It is proved of
every builder once, for all settings and images, and look-ups need nothing else. -/
structure Complete (luts : Luts) (depth : Depth) : Prop where
  depth_eq : luts.depth = depth
  size : ∀ c table, luts.table c = some table → table.size = depth.segments
  le : ∀ c table, luts.table c = some table → ∀ v ∈ table, v.toNat ≤ depth.maxValue

/-- Tables at whose depth every value is looked up, and every pixel is stored as it was mapped. A
shorter table would pass values through, and a larger entry would be cut off, without any sign of
it. -/
structure Applicable (luts : Luts) (depth : Depth) : Prop where
  /-- No value of the depth falls back to itself where there is a table. -/
  found : ∀ c table, luts.table c = some table → ∀ v : UInt16, v.toNat ≤ depth.maxValue →
    table[v.toNat]? = some (luts.map c v)
  /-- What a pixel of the depth is mapped to is stored without loss. -/
  stored : ∀ p : Pixel, p.Fits depth → (luts.mapPixel p).stored depth = luts.mapPixel p
  /-- A run that is not cancelled leaves an image in which every pixel is mapped. -/
  applied : ∀ image : Image, image.WellFormed → image.depth = depth →
    ∀ (progress : Progress) (band : Image.Band), (luts.apply image progress band).2.isRunning →
      (luts.apply image progress band).1.SameFrame image
      ∧ ∀ x < image.width.toNat, ∀ y < image.height.toNat,
        (luts.apply image progress band).1.pixel x y = luts.mapPixel (image.pixel x y)

variable {luts : Luts} {depth : Depth} {f : ℕ → ℕ}

theorem toNat_le_of_mem_tableOf (hf : ∀ v ≤ depth.maxValue, f v ≤ depth.maxValue) {entry : UInt16}
    (h : entry ∈ tableOf depth f) : entry.toNat ≤ depth.maxValue := by
  obtain ⟨v, rfl⟩ := Array.mem_ofFn.mp h
  have hle := hf v (Nat.le_of_lt_succ v.isLt)
  rwa [toNat_ofNat_level hle]

/-- Tables are complete if they are those of functions that stay inside the depth. -/
theorem complete_of_tables (hdepth : luts.depth = depth) (h : ∀ c, luts.table c = none
    ∨ ∃ f : ℕ → ℕ, luts.table c = some (tableOf depth f)
      ∧ ∀ v ≤ depth.maxValue, f v ≤ depth.maxValue) : luts.Complete depth := by
  have hmade : ∀ c table, luts.table c = some table →
      ∃ f : ℕ → ℕ, table = tableOf depth f ∧ ∀ v ≤ depth.maxValue, f v ≤ depth.maxValue := by
    intro c table htable
    rcases h c with hnone | ⟨f, hsome, hf⟩
    · rw [hnone] at htable
      cases htable
    · rw [hsome] at htable
      exact ⟨f, (Option.some.inj htable).symm, hf⟩
  refine ⟨hdepth, fun c table htable => ?_, fun c table htable v hv => ?_⟩
  · obtain ⟨f, rfl, -⟩ := hmade c table htable
    exact size_tableOf depth f
  · obtain ⟨f, rfl, hf⟩ := hmade c table htable
    exact toNat_le_of_mem_tableOf hf hv

namespace Complete

variable (h : luts.Complete depth)
include h

theorem getElem?_table {c : Component} {table : Array UInt16} (htable : luts.table c = some table)
    {v : UInt16} (hv : v.toNat ≤ depth.maxValue) : table[v.toNat]? = some (luts.map c v) := by
  have hlt : v.toNat < table.size := by
    rw [h.size c table htable]
    exact Nat.lt_succ_of_le hv
  rw [map, htable, lookup, Array.getD_eq_getD_getElem?, Array.getElem?_eq_getElem hlt,
    Option.getD_some]

theorem within : luts.Within depth := by
  intro c v hv
  cases htable : luts.table c with
  | none => rwa [map_of_none htable]
  | some table =>
    exact h.le c table htable _ (Array.mem_of_getElem? (h.getElem?_table htable hv))

theorem applicable : luts.Applicable depth where
  found _ _ htable _ hv := h.getElem?_table htable hv
  stored p hp := Pixel.stored_of_fits fun c => by
    rw [component_map]
    exact h.within c _ (hp c)
  applied image hwf hdepth progress band hrunning := by
    subst hdepth
    have hsteady := Image.steady_processRows image band (Image.pixelOp image.depth luts.mapPixel)
    rw [hwf.everyRow_pixelOp fun p hp => h.within.fits_mapPixel hp] at hsteady
    have himage : (luts.apply image progress band).1 = luts.mapped image := hsteady.image hrunning
    rw [himage]
    exact ⟨frame_mapped hwf luts, fun x hx y hy => pixel_mapped hwf h.within hx hy⟩

end Complete

end Luts

/-! ## The tables of filters -/

/-- Brightness, contrast and gamma have a table for every component that they do not leave alone. -/
theorem Contrast.table_luts_of_touched {settings : Contrast} {c : Component}
    (h : c ∉ (FilterSettings.contrast settings).untouched) (depth : Depth) :
    (settings.luts depth).table c = some (Luts.tableOf depth (settings.entry depth)) := by
  unfold FilterSettings.untouched at h
  unfold luts
  cases hchannel : settings.channel <;> simp only [hchannel] at h ⊢ <;> cases c <;>
    first | rfl | exact absurd (by decide) h

theorem Contrast.complete_luts (settings : Contrast) (depth : Depth) :
    (settings.luts depth).Complete depth := by
  have hdepth : (settings.luts depth).depth = depth := by
    unfold luts
    cases settings.channel <;> rfl
  refine Luts.complete_of_tables hdepth fun c => ?_
  by_cases hc : c ∈ (FilterSettings.contrast settings).untouched
  · exact .inl (table_luts hc depth)
  · exact .inr ⟨_, table_luts_of_touched hc depth, fun _ _ => clampNat_le _ _⟩

theorem Histogram.complete_equalizing (image : Image) :
    (ofImage image).equalizing.Complete image.depth := by
  refine Luts.complete_of_tables ?_ (tables_equalizing image)
  simp only [equalizing, List.foldl_cons, List.foldl_nil, depth_equalizeColor]
  rfl

theorem Histogram.complete_normalizing (image : Image) :
    (ofImage image).normalizing.Complete image.depth := by
  refine Luts.complete_of_tables ?_ (tables_normalizing image)
  unfold normalizing
  dsimp only
  split <;> rfl

theorem Levels.complete_luts {α : Type} [Arith α] (levels : Levels α) :
    levels.luts.Complete levels.depth :=
  Luts.complete_of_tables rfl fun c =>
    .inr ⟨levels.entry c, levels.table_luts c, fun v _ => levels.entry_le c v⟩

theorem Curves.table_luts (curves : Curves) (c : Component) :
    curves.luts.table c = some (Luts.tableOf curves.depth (curves.entry c)) := by
  cases c <;> rfl

theorem Curves.complete_luts (curves : Curves) : curves.luts.Complete curves.depth :=
  Luts.complete_of_tables rfl fun c =>
    .inr ⟨curves.entry c, curves.table_luts c, fun _ _ => clampNat_le _ _⟩

/-- The tables of all settings of contrast, of every image that is equalized or normalized, of all
levels and of all curves are complete. In machine words they are the same tables, as long as an image
has fewer than 2^48 pixels and a power is not near the end of 64 bits. Complete tables miss no value of
their depth, and no pixel that they map is cut off when it is stored. -/
theorem tables_complete :
    (∀ (settings : Contrast) (depth : Depth), (settings.luts depth).Complete depth
      ∧ (∀ c, ((settings.luts depth).table c).isSome
          ↔ c ∉ (FilterSettings.contrast settings).untouched)
      ∧ ((∀ v ≤ depth.maxValue,
            Contrast.Words.Moderate (Contrast.powered settings.gamma depth.maxValue v)) →
          Contrast.Words.luts? settings depth = some (settings.luts depth)))
    ∧ (∀ image : Image, (Histogram.ofImage image).equalizing.Complete image.depth
      ∧ (image.pixelCount < 0x1000000000000 →
          Histogram.Words.equalizing? (.ofImage image) = some (Histogram.ofImage image).equalizing))
    ∧ (∀ image : Image, (Histogram.ofImage image).normalizing.Complete image.depth
      ∧ Histogram.Words.normalizing? (.ofImage image) = some (Histogram.ofImage image).normalizing)
    ∧ (∀ levels : Levels Float, levels.luts.Complete levels.depth
      ∧ ∀ c, (levels.luts.table c).isSome)
    ∧ (∀ curves : Curves, curves.luts.Complete curves.depth
      ∧ (∀ c, (curves.luts.table c).isSome)
      ∧ (curves.WellFormed → Curves.Checked.luts curves = some curves.luts))
    ∧ ∀ (luts : Luts) (depth : Depth), luts.Complete depth → luts.Applicable depth := by
  refine ⟨fun settings depth => ⟨settings.complete_luts depth, fun c => ⟨fun hsome hc => ?_,
      fun hc => ?_⟩, Contrast.Words.luts?_eq settings depth⟩,
    fun image => ⟨Histogram.complete_equalizing image, Histogram.Words.equalizing?_eq⟩,
    fun image => ⟨Histogram.complete_normalizing image, Histogram.Words.normalizing?_eq image⟩,
    fun levels => ⟨levels.complete_luts, fun c => ?_⟩,
    fun curves => ⟨curves.complete_luts, fun c => ?_, Curves.Checked.luts_eq⟩,
    fun luts depth h => h.applicable⟩
  · rw [Contrast.table_luts hc depth] at hsome
    cases hsome
  · rw [Contrast.table_luts_of_touched hc depth]
    rfl
  · rw [levels.table_luts]
    rfl
  · rw [curves.table_luts]
    rfl

/-- Three values of red that are equalized: the table has an entry for every value, and it is applied to
every pixel. -/
theorem tables_complete_fourReds :
    fourReds.pixelCount < 0x1000000000000
      ∧ Histogram.Words.equalizing? (.ofImage fourReds)
          = some (Histogram.ofImage fourReds).equalizing
      ∧ (Histogram.ofImage fourReds).equalizing.Applicable .eight := by
  have hsmall : fourReds.pixelCount < 0x1000000000000 := by decide
  obtain ⟨-, hequalized, -, -, -, happlicable⟩ := tables_complete
  obtain ⟨hcomplete, hwords⟩ := hequalized fourReds
  exact ⟨hsmall, hwords hsmall, happlicable _ _ hcomplete⟩

end Darkroom
