import Darkroom.Proofs.Filter.Tables
import Darkroom.Proofs.Tone.Words

/-!
# What normalization gives

The three colors share one table, which stretches the range of all of them (`sharedTable_normalizing`).
The values of a normalized image are the stretched values, so its range is the whole range unless the
image has one value only (`colorLevels_normalized`). The table of either leaves the image alone, which
is why normalizing twice is normalizing once (`normalized_normalized`).
-/

namespace Darkroom

/-! ## The shared table -/

/-- Tables of which the colors share one that keeps the order of all values of a depth and stays
inside it. -/
structure SharedTable (luts : Luts) (depth : Depth) (table : Array UInt16) : Prop where
  colors : ∀ c : Component, c ≠ .alpha → luts.table c = some table
  alpha : luts.table .alpha = none
  size : table.size = depth.segments
  mono : ∀ u v, u ≤ v → v ≤ depth.maxValue → (table.getD u 0).toNat ≤ (table.getD v 0).toNat
  le : ∀ v ≤ depth.maxValue, (table.getD v 0).toNat ≤ depth.maxValue

theorem Luts.table_withColorTables (luts : Luts) (f : ℕ → ℕ) {c : Component} (hcolor : c ≠ .alpha) :
    (luts.withColorTables f).table c = some (tableOf luts.depth f) := by
  cases c with
  | red | green | blue => rfl
  | alpha => exact absurd rfl hcolor

def Image.normalized (image : Image) : Image :=
  (Histogram.ofImage image).normalizing.mapped image

namespace Histogram

variable {image : Image} {low high : ℕ}

theorem sharedTable_normalizing (hrange : (ofImage image).colorRange? = some (low, high)) :
    SharedTable (ofImage image).normalizing image.depth
      (Luts.tableOf image.depth (stretchEntry image.depth.maxValue low high)) := by
  have hentry : ∀ v ≤ image.depth.maxValue,
      ((Luts.tableOf image.depth (stretchEntry image.depth.maxValue low high)).getD v 0).toNat
        = stretchEntry image.depth.maxValue low high v := fun v hv =>
    Luts.toNat_getD_tableOf hv (stretchEntry_le hv) 0
  refine ⟨fun c hcolor => ?_, table_normalizing _, Luts.size_tableOf _ _, fun u v huv hv => ?_,
    fun v hv => ?_⟩
  · rw [normalizing_of_range hrange]
    exact Luts.table_withColorTables _ _ hcolor
  · rw [hentry u (huv.trans hv), hentry v hv]
    exact stretchEntry_mono huv hv
  · rw [hentry v hv]
    exact stretchEntry_le hv

/-- Every table is that of a function which stays inside the depth. -/
theorem tables_normalizing (image : Image) (c : Component) :
    (ofImage image).normalizing.table c = none
      ∨ ∃ f : ℕ → ℕ, (ofImage image).normalizing.table c = some (Luts.tableOf image.depth f)
        ∧ ∀ v ≤ image.depth.maxValue, f v ≤ image.depth.maxValue := by
  by_cases hcolor : c = .alpha
  · exact .inl (hcolor ▸ table_normalizing _)
  rcases Nat.eq_zero_or_pos image.pixelCount with hempty | hpixels
  · rw [normalizing_of_empty hempty]
    exact .inl (Luts.table_empty _ _)
  · obtain ⟨low, high, hrange, -⟩ := colorRange?_ofImage hpixels
    exact .inr ⟨_, (sharedTable_normalizing hrange).colors c hcolor, fun v hv => stretchEntry_le hv⟩

theorem within_normalizing (image : Image) : (ofImage image).normalizing.Within image.depth :=
  Luts.within_of_tables (tables_normalizing image)

/-- A color of a pixel is mapped to its place in the range. -/
theorem toNat_map_normalizing (hrange : (ofImage image).colorRange? = some (low, high))
    {c : Component} (hcolor : c ≠ .alpha) {p : Pixel} (hp : p.Fits image.depth) :
    (((ofImage image).normalizing.mapPixel p).component c).toNat
      = stretchEntry image.depth.maxValue low high (p.component c).toNat := by
  rw [Luts.component_map, Luts.toNat_map ((sharedTable_normalizing hrange).colors c hcolor) (hp c)
    (stretchEntry_le (hp c))]

end Histogram

/-! ## Normalized images -/

namespace Image

open Histogram

variable {image : Image} {low high : ℕ}

theorem pixel_normalized (hwf : image.WellFormed) {x y : ℕ} (hx : x < image.width.toNat)
    (hy : y < image.height.toNat) :
    image.normalized.pixel x y = (ofImage image).normalizing.mapPixel (image.pixel x y) :=
  Luts.pixel_mapped hwf (within_normalizing image) hx hy

theorem mem_colorLevels {v : ℕ} :
    v ∈ image.colorLevels ↔ ∃ x < image.width.toNat, ∃ y < image.height.toNat, ∃ c : Component,
      c ≠ .alpha ∧ ((image.pixel x y).component c).toNat = v := by
  constructor
  · rintro ⟨c, hcolor, x, hx, y, hy, rfl⟩
    exact ⟨x, hx, y, hy, c, hcolor, (Pixel.level_channel _ c).symm⟩
  · rintro ⟨x, hx, y, hy, c, hcolor, rfl⟩
    exact ⟨c, hcolor, x, hx, y, hy, Pixel.level_channel _ c⟩

/-- The colors of a normalized image are the stretched colors. -/
theorem colorLevels_normalized (hwf : image.WellFormed)
    (hrange : (ofImage image).colorRange? = some (low, high)) :
    image.normalized.colorLevels
      = stretchEntry image.depth.maxValue low high '' image.colorLevels := by
  obtain ⟨hdimensions, -⟩ := Luts.frame_mapped hwf (ofImage image).normalizing
  obtain ⟨hwidth, hheight⟩ := Dimensions.mk.inj hdimensions
  have hwidth' : image.normalized.width = image.width := hwidth
  have hheight' : image.normalized.height = image.height := hheight
  ext v
  rw [mem_colorLevels, hwidth', hheight', Set.mem_image]
  constructor
  · rintro ⟨x, hx, y, hy, c, hcolor, rfl⟩
    refine ⟨_, mem_colorLevels.mpr ⟨x, hx, y, hy, c, hcolor, rfl⟩, ?_⟩
    rw [pixel_normalized hwf hx hy, toNat_map_normalizing hrange hcolor (image.fits_pixel x y)]
  · rintro ⟨u, hu, rfl⟩
    obtain ⟨x, hx, y, hy, c, hcolor, rfl⟩ := mem_colorLevels.mp hu
    refine ⟨x, hx, y, hy, c, hcolor, ?_⟩
    rw [pixel_normalized hwf hx hy, toNat_map_normalizing hrange hcolor (image.fits_pixel x y)]

/-- An image whose colors stay where they are. -/
theorem normalized_eq_self (hwf : image.WellFormed)
    (hrange : (ofImage image).colorRange? = some (low, high))
    (h : ∀ v ∈ image.colorLevels, stretchEntry image.depth.maxValue low high v = v) :
    image.normalized = image := by
  refine Luts.mapped_eq_self hwf fun x hx y hy => Pixel.ext_component fun c => ?_
  by_cases hcolor : c = .alpha
  · rw [hcolor, Luts.component_map, Luts.map_of_none (table_normalizing _)]
  · rw [← UInt16.toNat_inj, toNat_map_normalizing hrange hcolor (image.fits_pixel x y)]
    exact h _ (mem_colorLevels.mpr ⟨x, hx, y, hy, c, hcolor, rfl⟩)

theorem normalized_of_subsingleton (hwf : image.WellFormed) (h : image.colorLevels.Subsingleton) :
    image.normalized = image := by
  rcases Nat.eq_zero_or_pos image.pixelCount with hempty | hpixels
  · rw [normalized, normalizing_of_empty hempty]
    refine Luts.mapped_eq_self hwf fun x _ y _ => Pixel.ext_component fun c => ?_
    rw [Luts.component_map, Luts.map_of_none (Luts.table_empty _ _)]
  · obtain ⟨low, high, hrange, hlow, hhigh⟩ := colorRange?_ofImage hpixels
    refine normalized_eq_self hwf hrange fun v hv => ?_
    rw [h hlow.1 hv, h hhigh.1 hv]
    exact stretchEntry_single

/-- The range of a normalized image with two values is the whole range. -/
theorem extremes_normalized (hwf : image.WellFormed)
    (hrange : (ofImage image).colorRange? = some (low, high))
    (hlow : IsLeast image.colorLevels low) (hhigh : IsGreatest image.colorLevels high)
    (horder : low < high) :
    IsLeast image.normalized.colorLevels 0
      ∧ IsGreatest image.normalized.colorLevels image.depth.maxValue := by
  rw [colorLevels_normalized hwf hrange]
  refine ⟨⟨⟨low, hlow.1, stretchEntry_low horder⟩, fun v _ => Nat.zero_le v⟩,
    ⟨high, hhigh.1, stretchEntry_high horder⟩, ?_⟩
  rintro _ ⟨v, hv, rfl⟩
  exact stretchEntry_le (le_of_mem_colorLevels hv)

/-- The range of two or more colors. -/
theorem colorRange?_of_nontrivial (h : image.colorLevels.Nontrivial) :
    ∃ low high, low < high ∧ (ofImage image).colorRange? = some (low, high)
      ∧ IsLeast image.colorLevels low ∧ IsGreatest image.colorLevels high := by
  have hpixels : 0 < image.pixelCount := by
    obtain ⟨v, hv⟩ := h.nonempty
    obtain ⟨x, hx, y, hy, -⟩ := mem_colorLevels.mp hv
    exact Nat.mul_pos (Nat.zero_lt_of_lt hx) (Nat.zero_lt_of_lt hy)
  obtain ⟨low, high, hrange, hlow, hhigh⟩ := colorRange?_ofImage hpixels
  exact ⟨low, high, lt_of_nontrivial h hlow hhigh, hrange, hlow, hhigh⟩

/-- Normalizing a second time changes nothing. -/
theorem normalized_normalized (hwf : image.WellFormed) :
    image.normalized.normalized = image.normalized := by
  rcases image.colorLevels.subsingleton_or_nontrivial with hone | htwo
  · rw [normalized_of_subsingleton hwf hone, normalized_of_subsingleton hwf hone]
  obtain ⟨low, high, horder, hrange, hlow, hhigh⟩ := colorRange?_of_nontrivial htwo
  -- The second pass finds the whole range, which is not stretched.
  obtain ⟨hfirst, hlast⟩ := extremes_normalized hwf hrange hlow hhigh horder
  have hdepth : image.normalized.depth = image.depth := (Luts.frame_mapped hwf _).2.1
  have htwo' : image.normalized.colorLevels.Nontrivial :=
    ⟨0, hfirst.1, _, hlast.1, image.depth.maxValue_pos.ne⟩
  obtain ⟨low', high', -, hrange', hlow', hhigh'⟩ := colorRange?_of_nontrivial htwo'
  obtain rfl := hlow'.unique hfirst
  obtain rfl := hhigh'.unique hlast
  refine normalized_eq_self (hwf.mapPixels _) hrange' fun v hv => ?_
  rw [hdepth]
  exact stretchEntry_whole image.depth.maxValue_pos (hdepth ▸ le_of_mem_colorLevels hv)

end Image

theorem gives_normalize {image calibration : Image} {reference : Option Image}
    (hwf : image.WellFormed) (hmeasured : Filter.measured image reference = .ok calibration)
    (hdepth : calibration.depth = image.depth) :
    Gives ((Filter.new .normalize).apply image reference)
      ((Histogram.ofImage calibration).normalizing.mapped image) :=
  Filter.gives_tables Histogram.normalizing hwf hmeasured
    (hdepth ▸ Histogram.within_normalizing calibration)

/-- An image of which the colors were stretched to the whole range. The least and the largest value are
those of all three colors together, and one color need not have them. With a single value there is no
range to stretch. -/
structure Image.Stretched (image result : Image) : Prop where
  sameFrame : result.SameFrame image
  ofSingle : image.colorLevels.Subsingleton → result = image
  ends : image.colorLevels.Nontrivial → ∃ low high,
    IsLeast image.colorLevels low ∧ IsGreatest image.colorLevels high
      ∧ ∀ x < image.width.toNat, ∀ y < image.height.toNat, ∀ c : Component, c ≠ .alpha →
        (((image.pixel x y).component c).toNat = low →
          ((result.pixel x y).component c).toNat = 0)
        ∧ (((image.pixel x y).component c).toNat = high →
          ((result.pixel x y).component c).toNat = image.depth.maxValue)

theorem Image.stretched_normalized {image : Image} (hwf : image.WellFormed) :
    image.Stretched image.normalized where
  sameFrame := Luts.frame_mapped hwf _
  ofSingle := Image.normalized_of_subsingleton hwf
  ends htwo := by
    obtain ⟨low, high, horder, hrange, hlow, hhigh⟩ := Image.colorRange?_of_nontrivial htwo
    refine ⟨low, high, hlow, hhigh, fun x hx y hy c hcolor => ?_⟩
    rw [Image.pixel_normalized hwf hx hy,
      Histogram.toNat_map_normalizing hrange hcolor (image.fits_pixel x y)]
    refine ⟨fun hvalue => ?_, fun hvalue => ?_⟩
    · rw [hvalue, Histogram.stretchEntry_low horder]
    · rw [hvalue, Histogram.stretchEntry_high horder]

open Histogram in
/-- Normalizing an image without a reference stretches it, and to do so twice gives the same as to do it
once. With any calibration image of the same depth no word overflows, and the colors share a table that
keeps the order of all values and stays inside the depth. -/
theorem normalize_stretches {image : Image} (hwf : image.WellFormed) :
    (∃ result, Gives ((Filter.new .normalize).apply image none) result
      ∧ Gives ((Filter.new .normalize).apply result none) result ∧ image.Stretched result)
    ∧ ∀ calibration : Image, calibration.WellFormed → calibration.depth = image.depth →
      ∃ luts, Words.normalizing? (ofImage calibration) = some luts
        ∧ (calibration.isNull → luts = .empty image.depth)
        ∧ (calibration.isNull = false → (∃ table, SharedTable luts image.depth table)
          ∧ ∃ result, Gives ((Filter.new .normalize).apply image (some calibration)) result
            ∧ result.SameFrame image ∧ ∀ x < image.width.toNat, ∀ y < image.height.toNat,
              result.pixel x y = luts.mapPixel (image.pixel x y)) := by
  refine ⟨⟨image.normalized, gives_normalize hwf (Filter.measured_none image) rfl, ?_,
    Image.stretched_normalized hwf⟩,
    fun calibration hwell hdepth => ⟨(ofImage calibration).normalizing,
      Words.normalizing?_eq calibration, fun hnull => ?_, fun hnull => ⟨?_, _,
        gives_normalize hwf (Filter.measured_some hnull hdepth) hdepth, Luts.frame_mapped hwf _,
        fun x hx y hy => ?_⟩⟩⟩
  · have hagain : Gives ((Filter.new .normalize).apply image.normalized none)
        image.normalized.normalized :=
      gives_normalize (hwf.mapPixels _) (Filter.measured_none image.normalized) rfl
    rwa [Image.normalized_normalized hwf] at hagain
  · rw [hwell.eq_null hnull] at hdepth ⊢
    rw [normalizing_of_empty rfl, hdepth]
  · obtain ⟨low, high, hrange, -⟩ := colorRange?_ofImage (hwell.isNull_eq_false_iff.mp hnull)
    exact ⟨_, hdepth ▸ sharedTable_normalizing hrange⟩
  · exact Luts.pixel_mapped hwf (hdepth ▸ within_normalizing calibration) hx hy

def dullPair : Image :=
  ⟨2, 1, .eight, true, #[10, 20, 30, 255, 20, 20, 60, 255]⟩

/-- The smallest color goes to zero and the largest one to 255, where both stay. -/
theorem normalize_stretches_dullPair :
    dullPair.WellFormed
      ∧ (∃ result, Gives ((Filter.new .normalize).apply dullPair none) result
        ∧ Gives ((Filter.new .normalize).apply result none) result
        ∧ (result.pixel 0 0).blue.toNat = 0 ∧ (result.pixel 1 0).red.toNat = 255)
      ∧ ∃ luts, Histogram.Words.normalizing? (.ofImage dullPair) = some luts
        ∧ ∃ table, SharedTable luts .eight table := by
  have hwf : dullPair.WellFormed := Or.inr (by decide)
  obtain ⟨⟨result, hgives, hagain, hstretched⟩, hcalibrated⟩ := normalize_stretches hwf
  have hten : IsLeast dullPair.colorLevels 10 := by
    refine ⟨Image.mem_colorLevels.mpr ⟨0, by decide, 0, by decide, .blue, by decide, by decide⟩, ?_⟩
    intro v hv
    obtain ⟨x, hx, y, hy, c, hcolor, rfl⟩ := Image.mem_colorLevels.mp hv
    have hall : ∀ x < 2, ∀ y < 1, ∀ c ∈ [Component.red, .green, .blue, .alpha],
        10 ≤ ((dullPair.pixel x y).component c).toNat := by decide
    exact hall x hx y hy c (by cases c <;> decide)
  have hsixty : IsGreatest dullPair.colorLevels 60 := by
    refine ⟨Image.mem_colorLevels.mpr ⟨1, by decide, 0, by decide, .red, by decide, by decide⟩, ?_⟩
    intro v hv
    obtain ⟨x, hx, y, hy, c, hcolor, rfl⟩ := Image.mem_colorLevels.mp hv
    have hall : ∀ x < 2, ∀ y < 1, ∀ c ∈ [Component.red, .green, .blue],
        ((dullPair.pixel x y).component c).toNat ≤ 60 := by decide
    exact hall x hx y hy c (by cases c <;> first | decide | exact absurd rfl hcolor)
  obtain ⟨low, high, hlow, hhigh, hends⟩ :=
    hstretched.ends ⟨10, hten.1, 60, hsixty.1, by decide⟩
  obtain rfl := hlow.unique hten
  obtain rfl := hhigh.unique hsixty
  obtain ⟨luts, hwords, -, hshared⟩ := hcalibrated dullPair hwf rfl
  exact ⟨hwf, ⟨result, hgives, hagain,
    (hends 0 (by decide) 0 (by decide) .blue (by decide)).1 (by decide),
    (hends 1 (by decide) 0 (by decide) .red (by decide)).2 (by decide)⟩,
    luts, hwords, (hshared rfl).1⟩

end Darkroom
