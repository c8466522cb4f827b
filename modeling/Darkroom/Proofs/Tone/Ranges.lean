import Darkroom.Proofs.Tone.Ranks

/-!
# The range of the colors

The range of a channel runs from the smallest to the largest value that pixels have, and the range of
the colors covers the three of red, green and blue (`colorRange?_ofImage`). Stretching it keeps the
order of all values; stretching the whole range changes nothing (`stretchEntry_whole`), which is what
a range becomes when it is stretched.
-/

namespace Darkroom

def Image.colorLevels (image : Image) : Set ℕ :=
  {v | ∃ c : Component, c ≠ .alpha ∧ v ∈ image.levels c.channel}

theorem Image.colorLevels_eq (image : Image) :
    image.colorLevels = image.levels .red ∪ image.levels .green ∪ image.levels .blue := by
  ext v
  constructor
  · rintro ⟨c, hcolor, hv⟩
    cases c with
    | red => exact .inl (.inl hv)
    | green => exact .inl (.inr hv)
    | blue => exact .inr hv
    | alpha => exact absurd rfl hcolor
  · rintro ((hv | hv) | hv)
    · exact ⟨.red, by decide, hv⟩
    · exact ⟨.green, by decide, hv⟩
    · exact ⟨.blue, by decide, hv⟩

theorem Image.le_of_mem_colorLevels {image : Image} {v : ℕ} (h : v ∈ image.colorLevels) :
    v ≤ image.depth.maxValue := by
  obtain ⟨c, -, hv⟩ := h
  exact le_of_mem_levels hv

namespace Histogram

variable {image : Image} {channel : Channel} {low high : ℕ}

/-! ## Ranges -/

theorem counts_toList (image : Image) (channel : Channel) :
    ((ofImage image).counts.get channel).toList
      = (List.range image.depth.segments).map fun v =>
          image.countPixels fun p => p.level channel = v := by
  refine List.ext_getElem? fun v => ?_
  rw [Array.getElem?_toList, List.getElem?_map]
  rcases Nat.lt_or_ge v image.depth.segments with hlt | hge
  · rw [getElem?_counts image channel hlt, List.getElem?_range hlt, Option.map_some]
  · rw [Array.getElem?_eq_none (by rwa [size_counts]),
      List.getElem?_eq_none (by rwa [List.length_range]), Option.map_none]

theorem channelRange?_ofImage (hlow : IsLeast (image.levels channel) low)
    (hhigh : IsGreatest (image.levels channel) high) :
    (ofImage image).channelRange? channel = some (low, high) := by
  have hlow' := Image.le_of_mem_levels hlow.1
  have hhigh' := Image.le_of_mem_levels hhigh.1
  have hsegments : image.depth.segments = image.depth.maxValue + 1 := rfl
  have habsent : ∀ {v}, v ∉ image.levels channel →
      ¬0 < image.countPixels fun p => p.level channel = v := fun h => mt Image.mem_levels_iff.mpr h
  have hfirst : ((ofImage image).counts.get channel).toList.findIdx? (fun n => decide (0 < n))
      = some low := by
    rw [counts_toList, List.findIdx?_eq_some_iff_getElem]
    refine ⟨by rw [List.length_map, List.length_range]; omega, ?_, fun v hv => ?_⟩
    · rw [List.getElem_map, List.getElem_range, decide_eq_true_eq]
      exact Image.mem_levels_iff.mp hlow.1
    · rw [List.getElem_map, List.getElem_range, decide_eq_true_eq]
      exact habsent fun hmem => absurd (hlow.2 hmem) (not_le.mpr hv)
  -- The scan from the other end finds the value `maxValue - k` at its place `k`.
  have hlast : ((ofImage image).counts.get channel).toList.reverse.findIdx?
      (fun n => decide (0 < n)) = some (image.depth.maxValue - high) := by
    rw [counts_toList, List.findIdx?_eq_some_iff_getElem]
    refine ⟨by rw [List.length_reverse, List.length_map, List.length_range]; omega, ?_,
      fun k hk => ?_⟩
    · have hplace : image.depth.segments - 1 - (image.depth.maxValue - high) = high := by omega
      rw [List.getElem_reverse, List.getElem_map, List.getElem_range, decide_eq_true_eq]
      simp only [List.length_map, List.length_range, hplace]
      exact Image.mem_levels_iff.mp hhigh.1
    · rw [List.getElem_reverse, List.getElem_map, List.getElem_range, decide_eq_true_eq]
      simp only [List.length_map, List.length_range]
      exact habsent fun hmem => absurd (hhigh.2 hmem) (by omega)
  have hlength : ((ofImage image).counts.get channel).toList.length = image.depth.segments := by
    rw [Array.length_toList, size_counts]
  rw [channelRange?]
  simp only [hfirst, hlast, hlength]
  rw [Option.some.injEq, Prod.mk.injEq]
  omega

theorem channelRange?_of_empty (h : image.pixelCount = 0) :
    (ofImage image).channelRange? channel = none := by
  have hzero := List.sum_eq_zero_iff_forall_eq_nat.mp ((sum_counts image channel).trans h)
  have hfirst : ((ofImage image).counts.get channel).toList.findIdx? (fun n => decide (0 < n))
      = none := by
    rw [List.findIdx?_eq_none_iff]
    intro n hn
    rw [hzero n hn]
    rfl
  rw [channelRange?]
  simp only [hfirst]

/-- The range of the colors of an image that has pixels. -/
theorem colorRange?_ofImage (h : 0 < image.pixelCount) :
    ∃ low high, (ofImage image).colorRange? = some (low, high)
      ∧ IsLeast image.colorLevels low ∧ IsGreatest image.colorLevels high := by
  obtain ⟨a, b, ha, hb⟩ := Image.exists_extremes (Image.levels_nonempty h .red)
  obtain ⟨c, d, hc, hd⟩ := Image.exists_extremes (Image.levels_nonempty h .green)
  obtain ⟨e, f, he, hf⟩ := Image.exists_extremes (Image.levels_nonempty h .blue)
  refine ⟨min (min a c) e, max (max b d) f, ?_, ?_, ?_⟩
  · simp only [colorRange?, List.foldl_cons, List.foldl_nil, channelRange?_ofImage ha hb,
      channelRange?_ofImage hc hd, channelRange?_ofImage he hf, joinRanges]
  · rw [Image.colorLevels_eq]
    exact (ha.union hc).union he
  · rw [Image.colorLevels_eq]
    exact (hb.union hd).union hf

theorem colorRange?_of_empty (h : image.pixelCount = 0) : (ofImage image).colorRange? = none := by
  simp only [colorRange?, List.foldl_cons, List.foldl_nil, channelRange?_of_empty h, joinRanges]

/-! ## Entries -/

section

variable {top u v : ℕ}

/-- Inside the range a value is stretched like a rank. -/
theorem stretchEntry_inside (hlow : low ≤ v) (hhigh : v ≤ high) :
    stretchEntry top low high v = if low = high then v else rankEntry top low high v := by
  rw [stretchEntry, if_neg (not_lt.mpr hlow), if_neg (not_lt.mpr hhigh)]
  rfl

theorem stretchEntry_below (h : v < low) : stretchEntry top low high v = 0 :=
  if_pos h

theorem stretchEntry_above (hlow : low ≤ v) (h : high < v) : stretchEntry top low high v = top := by
  rw [stretchEntry, if_neg (not_lt.mpr hlow), if_pos h]

theorem stretchEntry_le (hv : v ≤ top) : stretchEntry top low high v ≤ top := by
  rcases lt_or_ge v low with hlow | hlow
  · rw [stretchEntry_below hlow]
    exact Nat.zero_le top
  rcases lt_or_ge high v with hhigh | hhigh
  · rw [stretchEntry_above hlow hhigh]
  · rw [stretchEntry_inside hlow hhigh]
    split
    · exact hv
    · exact rankEntry_le hhigh

theorem stretchEntry_mono (huv : u ≤ v) (hv : v ≤ top) :
    stretchEntry top low high u ≤ stretchEntry top low high v := by
  rcases lt_or_ge u low with hlow | hlow
  · rw [stretchEntry_below hlow]
    exact Nat.zero_le _
  rcases lt_or_ge high v with hhigh | hhigh
  · rw [stretchEntry_above (hlow.trans huv) hhigh]
    exact stretchEntry_le (huv.trans hv)
  · rw [stretchEntry_inside hlow (huv.trans hhigh), stretchEntry_inside (hlow.trans huv) hhigh]
    split
    · exact huv
    · exact rankEntry_mono top low high huv

theorem stretchEntry_low (h : low < high) : stretchEntry top low high low = 0 := by
  rw [stretchEntry_inside le_rfl h.le, if_neg h.ne, rankEntry_of_le le_rfl]

theorem stretchEntry_high (h : low < high) : stretchEntry top low high high = top := by
  rw [stretchEntry_inside h.le le_rfl, if_neg h.ne, rankEntry_high h]

/-- A range of one value is not stretched. -/
theorem stretchEntry_single : stretchEntry top v v v = v := by
  rw [stretchEntry_inside le_rfl le_rfl, if_pos rfl]

/-- The whole range is not stretched either. -/
theorem stretchEntry_whole (htop : 0 < top) (hv : v ≤ top) : stretchEntry top 0 top v = v := by
  rw [stretchEntry_inside (Nat.zero_le v) hv, if_neg htop.ne, rankEntry, Nat.sub_zero,
    Nat.sub_zero, Nat.mul_div_cancel_left v htop]

end

/-! ## Tables -/

theorem normalizing_of_range {h : Histogram} (hrange : h.colorRange? = some (low, high)) :
    h.normalizing
      = (Luts.empty h.depth).withColorTables (stretchEntry h.depth.maxValue low high) := by
  simp only [normalizing, hrange]

theorem normalizing_of_empty (h : image.pixelCount = 0) :
    (ofImage image).normalizing = .empty image.depth := by
  simp only [normalizing, colorRange?_of_empty h]
  rfl

end Histogram

end Darkroom
