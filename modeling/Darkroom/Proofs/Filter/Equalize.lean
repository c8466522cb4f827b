import Darkroom.Proofs.Filter.Tables
import Darkroom.Proofs.Tone.Words

/-!
# What equalization gives

The table of a color is made of its ranks (`table_of_nontrivial`), or there is none if all pixels have
the same value. Either way values of the depth are mapped to values of it, so the equalized image
shows the entries of the tables (`equalize_by_rank`).
-/

namespace Darkroom

/-! ## Tables by rank -/

/-- A table that has each value at the place of its rank: the darkest value of the pixels at zero, the
brightest at the end of the range, and the others by the number of pixels that are not brighter. -/
structure ByRank (image : Image) (channel : Channel) (darkest brightest : ℕ)
    (table : Array UInt16) : Prop where
  size : table.size = image.depth.segments
  below : ∀ v < darkest, (table.getD v 0).toNat = 0
  entry : ∀ v, darkest ≤ v → v ≤ image.depth.maxValue → (table.getD v 0).toNat
    = image.depth.maxValue
        * (image.countPixels (fun p => p.level channel ≤ v)
            - image.countPixels fun p => p.level channel = darkest)
      / (image.pixelCount - image.countPixels fun p => p.level channel = darkest)
  le : ∀ v ≤ image.depth.maxValue, (table.getD v 0).toNat ≤ image.depth.maxValue
  mono : ∀ u v, u ≤ v → v ≤ image.depth.maxValue →
    (table.getD u 0).toNat ≤ (table.getD v 0).toNat
  first : (table.getD darkest 0).toNat = 0
  last : (table.getD brightest 0).toNat = image.depth.maxValue

namespace Histogram

variable {image : Image} {channel : Channel} {darkest brightest : ℕ}

def rankOf (image : Image) (channel : Channel) (darkest v : ℕ) : ℕ :=
  rankEntry image.depth.maxValue (image.rank channel darkest) image.pixelCount
    (image.rank channel v)

theorem rankOf_le (image : Image) (channel : Channel) (darkest v : ℕ) :
    rankOf image channel darkest v ≤ image.depth.maxValue :=
  rankEntry_le (image.rank_le channel v)

theorem rankOf_mono (image : Image) (channel : Channel) (darkest : ℕ) :
    Monotone (rankOf image channel darkest) :=
  fun _ _ h => rankEntry_mono _ _ _ (image.rank_mono channel h)

/-- The table of the entries by rank. -/
theorem byRank_tableOf (hdark : IsLeast (image.levels channel) darkest)
    (hbright : IsGreatest (image.levels channel) brightest) (horder : darkest < brightest) :
    ByRank image channel darkest brightest
      (Luts.tableOf image.depth (rankOf image channel darkest)) := by
  have hentry : ∀ v ≤ image.depth.maxValue,
      ((Luts.tableOf image.depth (rankOf image channel darkest)).getD v 0).toNat
        = rankOf image channel darkest v := fun v hv =>
    Luts.toNat_getD_tableOf hv (rankOf_le image channel darkest v) 0
  have hdark' := Image.le_of_mem_levels hdark.1
  refine ⟨Luts.size_tableOf _ _, fun v hv => ?_, fun v _ hv => ?_, fun v hv => ?_,
    fun u v huv hv => ?_, ?_, ?_⟩
  · rw [hentry v (hv.le.trans hdark')]
    exact rankEntry_of_le (image.rank_mono channel hv.le)
  · rw [hentry v hv, rankOf, rankEntry, Image.rank_least hdark]
    rfl
  · rw [hentry v hv]
    exact rankOf_le image channel darkest v
  · rw [hentry u (huv.trans hv), hentry v hv]
    exact rankOf_mono image channel darkest huv
  · rw [hentry darkest hdark']
    exact rankEntry_of_le le_rfl
  · rw [hentry brightest (Image.le_of_mem_levels hbright.1), rankOf,
      Image.rank_of_le hbright le_rfl]
    exact rankEntry_high (Image.rank_lt hbright horder)

/-! ## The tables of an image -/

variable {c : Component}

theorem table_of_subsingleton (hcolor : c ≠ .alpha) (h : (image.levels c.channel).Subsingleton) :
    (ofImage image).equalizing.table c = none := by
  rw [table_equalizing_color _ hcolor, if_pos (lowestRank_eq_highestRank h)]

theorem table_of_extremes (hcolor : c ≠ .alpha) (hdark : IsLeast (image.levels c.channel) darkest)
    (hbright : IsGreatest (image.levels c.channel) brightest) (horder : darkest < brightest) :
    (ofImage image).equalizing.table c
      = some (Luts.tableOf image.depth (rankOf image c.channel darkest)) := by
  have hends : lowestRank ((ofImage image).ranks c.channel)
      ≠ highestRank ((ofImage image).ranks c.channel) := by
    rw [lowestRank_ofImage hdark, highestRank_ofImage]
    exact (Image.rank_lt hbright horder).ne
  rw [table_equalizing_color _ hcolor, if_neg hends, lowestRank_ofImage hdark, highestRank_ofImage]
  refine congrArg some (Luts.tableOf_congr fun v hv => ?_)
  rw [Array.getD_eq_getD_getElem?, getElem?_ranks hv, Option.getD_some]
  rfl

/-- A color with two values has a darkest and a brightest one. -/
theorem extremes_of_nontrivial (h : (image.levels channel).Nontrivial) :
    ∃ darkest brightest, darkest < brightest ∧ IsLeast (image.levels channel) darkest
      ∧ IsGreatest (image.levels channel) brightest := by
  obtain ⟨darkest, brightest, hdark, hbright⟩ := Image.exists_extremes h.nonempty
  exact ⟨darkest, brightest, Image.lt_of_nontrivial h hdark hbright, hdark, hbright⟩

/-- Every table is that of a function which stays inside the depth. -/
theorem tables_equalizing (image : Image) (c : Component) :
    (ofImage image).equalizing.table c = none
      ∨ ∃ f : ℕ → ℕ, (ofImage image).equalizing.table c = some (Luts.tableOf image.depth f)
        ∧ ∀ v ≤ image.depth.maxValue, f v ≤ image.depth.maxValue := by
  by_cases hcolor : c = .alpha
  · exact .inl (hcolor ▸ table_equalizing _)
  rcases (image.levels c.channel).subsingleton_or_nontrivial with hone | htwo
  · exact .inl (table_of_subsingleton hcolor hone)
  · obtain ⟨darkest, brightest, horder, hdark, hbright⟩ := extremes_of_nontrivial htwo
    exact .inr ⟨_, table_of_extremes hcolor hdark hbright horder,
      fun v _ => rankOf_le image c.channel darkest v⟩

theorem within_equalizing (image : Image) : (ofImage image).equalizing.Within image.depth :=
  Luts.within_of_tables (tables_equalizing image)

end Histogram

/-! ## Equalized images -/

theorem gives_equalize {image : Image} (hwf : image.WellFormed) :
    Gives ((Filter.new .equalize).apply image none)
      ((Histogram.ofImage image).equalizing.mapped image) :=
  Filter.gives_tables Histogram.equalizing hwf (Filter.measured_none image)
    (Histogram.within_equalizing image)

open Histogram in
/-- An image of fewer than 2^48 pixels is equalized without an overflow. A color whose pixels have the
same value keeps it; any other color is mapped by rank, so that no two of its pixels change their
order. -/
theorem equalize_by_rank {image : Image} (hwf : image.WellFormed)
    (hsmall : image.pixelCount < 0x1000000000000) :
    ∃ luts result, Words.equalizing? (ofImage image) = some luts
      ∧ Gives ((Filter.new .equalize).apply image none) result ∧ result.SameFrame image
      ∧ (∀ x < image.width.toNat, ∀ y < image.height.toNat,
          result.pixel x y = luts.mapPixel (image.pixel x y))
      ∧ ∀ c : Component, c ≠ .alpha →
        ((image.levels c.channel).Subsingleton → luts.table c = none
          ∧ ∀ x < image.width.toNat, ∀ y < image.height.toNat,
            (result.pixel x y).component c = (image.pixel x y).component c)
        ∧ ((image.levels c.channel).Nontrivial → ∃ darkest brightest table,
          IsLeast (image.levels c.channel) darkest ∧ IsGreatest (image.levels c.channel) brightest
          ∧ luts.table c = some table ∧ ByRank image c.channel darkest brightest table
          ∧ (∀ x < image.width.toNat, ∀ y < image.height.toNat,
              (result.pixel x y).level c.channel
                = (table.getD ((image.pixel x y).level c.channel) 0).toNat)
          ∧ ∀ x < image.width.toNat, ∀ y < image.height.toNat,
            ∀ x' < image.width.toNat, ∀ y' < image.height.toNat,
              (image.pixel x y).level c.channel ≤ (image.pixel x' y').level c.channel →
                (result.pixel x y).level c.channel ≤ (result.pixel x' y').level c.channel) := by
  have hwithin := within_equalizing image
  have hpixel : ∀ x < image.width.toNat, ∀ y < image.height.toNat,
      ((ofImage image).equalizing.mapped image).pixel x y
        = (ofImage image).equalizing.mapPixel (image.pixel x y) :=
    fun x hx y hy => Luts.pixel_mapped hwf hwithin hx hy
  refine ⟨(ofImage image).equalizing, (ofImage image).equalizing.mapped image,
    Words.equalizing?_eq hsmall, gives_equalize hwf, Luts.frame_mapped hwf _, hpixel,
    fun c hcolor => ⟨fun hone => ?_, fun htwo => ?_⟩⟩
  · have htable := table_of_subsingleton hcolor hone
    refine ⟨htable, fun x hx y hy => ?_⟩
    rw [hpixel x hx y hy, Luts.component_map, Luts.map_of_none htable]
  · obtain ⟨darkest, brightest, horder, hdark, hbright⟩ := extremes_of_nontrivial htwo
    have htable := table_of_extremes hcolor hdark hbright horder
    have hrank := byRank_tableOf hdark hbright horder
    have hentry : ∀ x < image.width.toNat, ∀ y < image.height.toNat,
        (((ofImage image).equalizing.mapped image).pixel x y).level c.channel
          = ((Luts.tableOf image.depth (rankOf image c.channel darkest)).getD
              ((image.pixel x y).level c.channel) 0).toNat := by
      intro x hx y hy
      have hvalue := image.fits_pixel x y c
      have hle := rankOf_le image c.channel darkest ((image.pixel x y).component c).toNat
      rw [hpixel x hx y hy, Pixel.level_channel, Pixel.level_channel, Luts.component_map,
        Luts.toNat_map htable hvalue hle, Luts.toNat_getD_tableOf hvalue hle]
    refine ⟨darkest, brightest, _, hdark, hbright, htable, hrank, hentry, ?_⟩
    intro x hx y hy x' hx' y' hy' hle
    rw [hentry x hx y hy, hentry x' hx' y' hy']
    exact hrank.mono _ _ hle (Image.le_of_mem_levels (Image.level_mem_levels hx' hy'))

def fourReds : Image :=
  ⟨4, 1, .eight, true, #[0, 7, 10, 255, 1, 7, 20, 255, 2, 7, 20, 255, 3, 7, 30, 255]⟩

/-- Of four pixels one is darkest and three are not brighter than the middle value, which goes to two
thirds of the range. -/
theorem equalize_by_rank_fourReds :
    fourReds.WellFormed ∧ fourReds.pixelCount < 0x1000000000000
      ∧ ∃ result, Gives ((Filter.new .equalize).apply fourReds none) result
        ∧ (result.pixel 0 0).red.toNat = 0 ∧ (result.pixel 1 0).red.toNat = 170
        ∧ (result.pixel 3 0).red.toNat = 255 ∧ (result.pixel 2 0).green = 7 := by
  have hwf : fourReds.WellFormed := Or.inr (by decide)
  have hsmall : fourReds.pixelCount < 0x1000000000000 := by decide
  obtain ⟨luts, result, -, hgives, -, -, hcolors⟩ := equalize_by_rank hwf hsmall
  have hgreen : (fourReds.levels .green).Subsingleton := by
    rintro _ ⟨x, hx, y, hy, rfl⟩ _ ⟨x', hx', y', hy', rfl⟩
    have hall : ∀ x < 4, ∀ y < 1, (fourReds.pixel x y).level .green = 7 := by decide
    rw [hall x hx y hy, hall x' hx' y' hy']
  have hten : IsLeast (fourReds.levels .red) 10 := by
    refine ⟨⟨0, by decide, 0, by decide, by decide⟩, ?_⟩
    rintro _ ⟨x, hx, y, hy, rfl⟩
    have hall : ∀ x < 4, ∀ y < 1, 10 ≤ (fourReds.pixel x y).level .red := by decide
    exact hall x hx y hy
  have hred : (fourReds.levels .red).Nontrivial :=
    ⟨10, hten.1, 30, ⟨3, by decide, 0, by decide, by decide⟩, by decide⟩
  obtain ⟨darkest, brightest, table, hdark, -, -, hrank, hentry, -⟩ :=
    (hcolors .red (by decide)).2 hred
  obtain rfl := hdark.unique hten
  refine ⟨hwf, hsmall, result, hgives, ?_, ?_, ?_, ?_⟩
  · have hfirst : (result.pixel 0 0).red.toNat = (table.getD 10 0).toNat :=
      hentry 0 (by decide) 0 (by decide)
    rw [hfirst, hrank.first]
  · have hsecond : (result.pixel 1 0).red.toNat = (table.getD 20 0).toNat :=
      hentry 1 (by decide) 0 (by decide)
    rw [hsecond, hrank.entry 20 (by decide) (by decide)]
    decide
  · have hfourth : (result.pixel 3 0).red.toNat = (table.getD 30 0).toNat :=
      hentry 3 (by decide) 0 (by decide)
    rw [hfourth, hrank.entry 30 (by decide) (by decide)]
    decide
  · exact ((hcolors .green (by decide)).1 hgreen).2 2 (by decide) 0 (by decide)

end Darkroom
