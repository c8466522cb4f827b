import Darkroom.Proofs.Filter.Tables
import Darkroom.Proofs.Tone.AutoLevels

/-!
# Automatic levels of a flat image

Where all pixels have the same color each scan stops right before the only value that a channel has
(`stop_only`), wherever this value lies. So both bounds are this value and the range between them is
empty; the place of the value in it is its distance from the lower bound, which is zero. Automatic
levels without rounding errors therefore turn a flat image black and keep its alpha
(`autoLevels_flat`).
-/

namespace Darkroom

/-! ## Scans -/

namespace Levels

variable {f : ℕ → ℕ} {max total v : ℕ}

/-- A scan with one value to stop before stops before it. -/
theorem stop_only (hv : v ≤ max) (hpos : 0 < total) (hvalue : f v = total)
    (hother : ∀ b ≤ max, b ≠ v → f b = 0) : stop f max total = v := by
  have hbefore : passed f v = 0 := Finset.sum_eq_zero fun b hb =>
    have hlt := Finset.mem_range.mp hb
    hother b (hlt.le.trans hv) hlt.ne
  have hstops : Stops f total v := by
    rw [Stops, passed_succ, hbefore, hvalue]
    omega
  rcases stop_cases f max total with ⟨hzero, hnone⟩ | ⟨-, hle, hstop, -⟩
  · rcases Nat.eq_zero_or_pos v with rfl | hone
    · exact hzero
    · exact absurd hstops (hnone v hone hv)
  · by_contra hne
    have hempty := hother _ hle hne
    have hsome := hstop.1
    omega

/-! ## Tables -/

theorem table_luts {α : Type} [Arith α] (levels : Levels α) (c : Component) :
    levels.luts.table c = some (Luts.tableOf levels.depth (levels.entry c)) := by
  cases c <;> rfl

theorem entry_le {α : Type} [Arith α] (levels : Levels α) (c : Component) (v : ℕ) :
    levels.entry c v ≤ levels.depth.maxValue :=
  Nat.min_le_right _ _

end Levels

namespace Histogram

variable {h : Histogram} {channel : Channel} {v : ℕ}

theorem within_autoLevels (h : Histogram) : (h.autoLevels ℝ).luts.Within h.depth := by
  refine Luts.within_of_tables fun c => .inr ⟨(h.autoLevels ℝ).entry c, ?_, fun v _ => ?_⟩
  · rw [Levels.table_luts, channels_autoLevels.1]
  · rw [← channels_autoLevels.1]
    exact Levels.entry_le _ c v

theorem toNat_map_autoLevels (c : Component) {v : UInt16} (hv : v.toNat ≤ h.depth.maxValue) :
    ((h.autoLevels ℝ).luts.map c v).toNat = (h.autoLevels ℝ).entry c v.toNat := by
  refine Luts.toNat_map ?_ hv ?_
  · rw [Levels.table_luts, channels_autoLevels.1]
  · rw [← channels_autoLevels.1]
    exact Levels.entry_le _ c _

/-- Alpha is left alone. -/
theorem entry_alpha (hv : v ≤ h.depth.maxValue) : (h.autoLevels ℝ).entry .alpha v = v := by
  have htop := h.depth.maxValue_pos
  have htop' : (0 : ℝ) < h.depth.maxValue := Nat.cast_pos.mpr htop
  have hrange : h.depth.maxValue < 2 ^ 63 := by cases h.depth <;> decide
  have halpha : (h.autoLevels ℝ).channels.get .alpha
      = .stretching h.depth 0 h.depth.maxValue := by
    rw [channels_autoLevels.2]
    rfl
  have hplace : ((h.autoLevels ℝ).channels.get .alpha).map ((v : ℝ) / h.depth.maxValue)
      (h.depth.maxValue : ℝ) = v / h.depth.maxValue := by
    rw [halpha, ChannelLevels.map_stretching (Nat.zero_le _) le_rfl]
    exact ChannelLevels.place_whole htop (by positivity)
      ((div_le_one htop').mpr (Nat.cast_le.mpr hv))
  have htransfer : (h.autoLevels ℝ).transfer .alpha ((v : ℝ) / h.depth.maxValue)
      = v / h.depth.maxValue := by
    rw [Levels.transfer, channels_autoLevels.1]
    exact hplace
  rw [Levels.entry, channels_autoLevels.1]
  simp only [Arith.ofNat_real]
  rw [htransfer, mul_div_cancel₀ _ htop'.ne']
  exact roundClamp_natCast hv hrange

/-! ## Bounds of a single value -/

section

variable (hv : v ≤ h.depth.maxValue) (hpos : 0 < h.total channel)
  (hvalue : h.value channel v = h.total channel)
  (hother : ∀ b ≤ h.depth.maxValue, b ≠ v → h.value channel b = 0)

include hv hpos hvalue hother

theorem low_only : h.low channel = v := by
  rw [low, if_neg hpos.ne']
  exact Levels.stop_only hv hpos hvalue hother

theorem high_only : h.high channel = v := by
  have hmirror : h.fromBright channel (h.depth.maxValue - v) = h.total channel := by
    rw [← fromDark_mirror v hv]
    exact hvalue
  -- From the bright end the value stands as far away as it is below the largest one.
  have hstop : Levels.stop (h.fromBright channel) h.depth.maxValue (h.total channel)
      = h.depth.maxValue - v :=
    Levels.stop_only (Nat.sub_le _ _) hpos hmirror fun k hk hne =>
      hother _ (Nat.sub_le _ _) (by omega)
  rw [high, if_neg hpos.ne', hstop]
  omega

/-- The only value is as far from the lower bound as a value at the bound is: not at all. -/
theorem entry_only {c : Component} (hcolor : c ≠ .alpha) (hchannel : c.channel = channel) :
    (h.autoLevels ℝ).entry c v = 0 := by
  have hrange : h.depth.maxValue < 2 ^ 63 := by cases h.depth <;> decide
  have hplace : ChannelLevels.place v v v = 0 := by
    rw [ChannelLevels.place, if_pos rfl, sub_self, min_eq_right zero_le_one, max_self]
  rw [entry_autoLevels hcolor, hchannel, low_only hv hpos hvalue hother,
    high_only hv hpos hvalue hother, hplace, mul_zero]
  exact_mod_cast roundClamp_natCast (Nat.zero_le _) hrange

end

end Histogram

/-! ## Pixels of a flat image -/

section

variable {image : Image} {p : Pixel}
  (hflat : ∀ x < image.width.toNat, ∀ y < image.height.toNat, image.pixel x y = p)

include hflat

/-- A property holds at all positions or at none. -/
theorem Image.countPixels_flat (P : Pixel → Prop) [DecidablePred P] :
    image.countPixels P = if P p then image.pixelCount else 0 := by
  split
  · rename_i hp
    rw [← countPixels_true]
    refine countPixels_congr fun x hx y hy => iff_of_true ?_ trivial
    rwa [hflat x hx y hy]
  · rename_i hp
    refine Nat.eq_zero_of_not_pos fun hpos => hp ?_
    obtain ⟨x, hx, y, hy, hpixel⟩ := countPixels_pos.mp hpos
    rwa [hflat x hx y hy] at hpixel

namespace Histogram

/-- The value that all pixels have in a color goes to zero. -/
theorem entry_flat (hpixels : 0 < image.pixelCount) (hfits : p.Fits image.depth) {c : Component}
    (hcolor : c ≠ .alpha) : ((ofImage image).autoLevels ℝ).entry c (p.component c).toNat = 0 := by
  have hlevel := Pixel.level_channel p c
  have htotal : (ofImage image).total c.channel = image.pixelCount := by
    rw [total, count_ofImage, Image.countPixels_flat hflat,
      if_pos ⟨Nat.zero_le _, hlevel ▸ hfits c⟩]
  refine entry_only (hfits c) (htotal ▸ hpixels) ?_ (fun b _ hb => ?_) hcolor rfl
  · rw [value_ofImage, Image.countPixels_flat hflat, if_pos (by rw [hlevel]), htotal]
  · rw [value_ofImage, Image.countPixels_flat hflat, if_neg]
    rw [hlevel, Nat.cast_inj]
    exact fun heq => hb heq.symm

/-- The pixels come out black. -/
theorem mapPixel_flat {x y : ℕ} (hx : x < image.width.toNat) (hy : y < image.height.toNat) :
    ((ofImage image).autoLevels ℝ).luts.mapPixel (image.pixel x y) = ⟨0, 0, 0, p.alpha⟩ := by
  have hpixels : 0 < image.pixelCount := Nat.mul_pos (Nat.zero_lt_of_lt hx) (Nat.zero_lt_of_lt hy)
  have hfits : p.Fits image.depth := hflat x hx y hy ▸ image.fits_pixel x y
  have hentry : ∀ c, (((ofImage image).autoLevels ℝ).luts.mapPixel p).component c
      = if c = .alpha then p.alpha else 0 := by
    intro c
    rw [← UInt16.toNat_inj, Luts.component_map, toNat_map_autoLevels c (hfits c)]
    split
    · rename_i halpha
      rw [halpha]
      exact entry_alpha (hfits .alpha)
    · rename_i hcolor
      exact entry_flat hflat hpixels hfits hcolor
  rw [hflat x hx y hy]
  refine Pixel.ext_component fun c => ?_
  rw [hentry]
  cases c <;> rfl

end Histogram

end

/-! ## Flat images -/

/-- Automatic levels at work in some arithmetic. In running doubles it is the filter itself, and in
exact numbers it can be said what becomes of a flat image. -/
def Filter.levelling (α : Type) [Arith α] (f : Filter) (source : Image) (reference : Option Image)
    (progress : Progress) : Except FilterError Filtered :=
  f.measuring source reference progress fun h progress =>
    (h.autoLevels α).luts.apply source progress ⟨10, 100⟩

/-- The filter is this work in doubles. -/
theorem Filter.apply_autoLevels (source : Image) (reference : Option Image) (progress : Progress) :
    (Filter.new .autoLevels).apply source reference progress
      = (Filter.new .autoLevels).levelling Float source reference progress :=
  (rfl)

/-- The filter levels in doubles. With exact fractions in their place, and without a reference, it turns a
flat image black, up to its alpha. So it leaves the image alone only if it has no pixels or was black
before. -/
theorem autoLevels_flat {image : Image} (hwf : image.WellFormed) {p : Pixel}
    (hflat : ∀ x < image.width.toNat, ∀ y < image.height.toNat, image.pixel x y = p) :
    (∀ progress, (Filter.new .autoLevels).apply image none progress
        = (Filter.new .autoLevels).levelling Float image none progress)
      ∧ ∃ result, Gives ((Filter.new .autoLevels).levelling ℝ image none) result
        ∧ result.SameFrame image
        ∧ (∀ x < image.width.toNat, ∀ y < image.height.toNat,
            result.pixel x y = ⟨0, 0, 0, p.alpha⟩)
        ∧ (result = image
          ↔ image.isNull = true ∨ p.blue = 0 ∧ p.green = 0 ∧ p.red = 0) := by
  have hwithin := Histogram.within_autoLevels (.ofImage image)
  have hpixel : ∀ x < image.width.toNat, ∀ y < image.height.toNat,
      (((Histogram.ofImage image).autoLevels ℝ).luts.mapped image).pixel x y
        = ⟨0, 0, 0, p.alpha⟩ := by
    intro x hx y hy
    rw [Luts.pixel_mapped hwf hwithin hx hy, Histogram.mapPixel_flat hflat hx hy]
  refine ⟨Filter.apply_autoLevels image none, _,
    Filter.gives_tables (fun h => (h.autoLevels ℝ).luts) hwf (Filter.measured_none image) hwithin,
    Luts.frame_mapped hwf _, hpixel, fun hsame => ?_, fun hblack => ?_⟩
  · cases hnull : image.isNull with
    | true => exact .inl rfl
    | false =>
        have hfirst := hpixel 0 (hwf.width_pos hnull) 0 (hwf.height_pos hnull)
        rw [hsame, hflat 0 (hwf.width_pos hnull) 0 (hwf.height_pos hnull)] at hfirst
        rw [hfirst]
        exact .inr ⟨rfl, rfl, rfl⟩
  · refine Luts.mapped_eq_self hwf fun x hx y hy => ?_
    rcases hblack with hnull | ⟨hblue, hgreen, hred⟩
    · rw [hwf.eq_null hnull] at hx
      exact absurd hx (Nat.not_lt_zero x)
    · rw [Histogram.mapPixel_flat hflat hx hy, hflat x hx y hy]
      refine Pixel.ext_component fun c => ?_
      cases c with
      | red => exact hred.symm
      | green => exact hgreen.symm
      | blue => exact hblue.symm
      | alpha => rfl

def grayPixel : Image :=
  ⟨1, 1, .eight, true, #[80, 80, 80, 255]⟩

/-- It turns black. -/
theorem autoLevels_flat_grayPixel :
    grayPixel.WellFormed ∧ (∀ x < 1, ∀ y < 1, grayPixel.pixel x y = ⟨80, 80, 80, 255⟩)
      ∧ ∃ result, Gives ((Filter.new .autoLevels).levelling ℝ grayPixel none) result
        ∧ result.pixel 0 0 = ⟨0, 0, 0, 255⟩ ∧ result ≠ grayPixel := by
  have hwf : grayPixel.WellFormed := Or.inr (by decide)
  have hflat : ∀ x < 1, ∀ y < 1, grayPixel.pixel x y = ⟨80, 80, 80, 255⟩ := by decide
  obtain ⟨-, result, hgives, -, hpixel, hsame⟩ := autoLevels_flat hwf hflat
  refine ⟨hwf, hflat, result, hgives, hpixel 0 (by decide) 0 (by decide), fun heq => ?_⟩
  exact absurd (hsame.mp heq) (by decide)

end Darkroom
