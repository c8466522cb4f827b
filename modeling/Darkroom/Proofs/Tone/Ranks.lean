import Darkroom.Proofs.Filter.Untouched
import Darkroom.Proofs.Tone.Histogram
import Darkroom.Tone.Stretch
import Mathlib.Order.Lattice.Nat

/-!
# Equalization by ranks

The ranks of an image are running sums of counts, so each is the number of pixels up to a value
(`ranks_ofImage`). The lowest one is the number of pixels with the darkest value and the highest one
that of all pixels (`lowestRank_ofImage`, `highestRank_ofImage`), which is why a table by rank rises
from zero to the largest value.
-/

namespace Darkroom

/-! ## Values that pixels have -/

namespace Image

/-- The values of a channel that pixels of an image have. -/
def levels (image : Image) (channel : Channel) : Set ℕ :=
  {v | ∃ x < image.width.toNat, ∃ y < image.height.toNat, (image.pixel x y).level channel = v}

variable {image : Image} {channel : Channel} {v low high : ℕ}

theorem level_mem_levels {x y : ℕ} (hx : x < image.width.toNat) (hy : y < image.height.toNat) :
    (image.pixel x y).level channel ∈ image.levels channel :=
  ⟨x, hx, y, hy, rfl⟩

theorem le_of_mem_levels (h : v ∈ image.levels channel) : v ≤ image.depth.maxValue := by
  obtain ⟨x, -, y, -, rfl⟩ := h
  exact Nat.le_of_lt_succ ((image.fits_pixel x y).level_lt channel)

theorem mem_levels_iff : v ∈ image.levels channel
    ↔ 0 < image.countPixels fun p => p.level channel = v :=
  (countPixels_pos (P := fun p => p.level channel = v)).symm

theorem levels_nonempty (h : 0 < image.pixelCount) (channel : Channel) :
    (image.levels channel).Nonempty := by
  rw [← countPixels_true, countPixels_pos] at h
  obtain ⟨x, hx, y, hy, -⟩ := h
  exact ⟨_, level_mem_levels hx hy⟩

theorem exists_extremes (h : (image.levels channel).Nonempty) :
    ∃ low high, IsLeast (image.levels channel) low ∧ IsGreatest (image.levels channel) high := by
  have hbounded : BddAbove (image.levels channel) := ⟨_, fun _ hv => le_of_mem_levels hv⟩
  exact ⟨sInf _, sSup _, ⟨Nat.sInf_mem h, fun _ hv => Nat.sInf_le hv⟩,
    ⟨Nat.sSup_mem h hbounded, fun _ hv => le_csSup hbounded hv⟩⟩

/-- The ends of values that differ are apart. -/
theorem lt_of_nontrivial {values : Set ℕ} (h : values.Nontrivial) (hlow : IsLeast values low)
    (hhigh : IsGreatest values high) : low < high := by
  obtain ⟨u, hu, v, hv, huv⟩ := h.exists_lt
  exact lt_of_le_of_lt (hlow.2 hu) (huv.trans_le (hhigh.2 hv))

/-! ## Ranks -/

/-- The number of pixels with a value up to `v`. It is what an entry of the table is made of. -/
def rank (image : Image) (channel : Channel) (v : ℕ) : ℕ :=
  image.countPixels fun p => p.level channel ≤ v

theorem rank_mono (image : Image) (channel : Channel) : Monotone (image.rank channel) :=
  fun _ _ huv => countPixels_mono fun _ hle => hle.trans huv

theorem rank_le (image : Image) (channel : Channel) (v : ℕ) :
    image.rank channel v ≤ image.pixelCount := by
  rw [← countPixels_true]
  exact countPixels_mono fun _ _ => trivial

theorem rank_of_lt (h : IsLeast (image.levels channel) low) (hv : v < low) :
    image.rank channel v = 0 := by
  refine Nat.eq_zero_of_not_pos fun hpos => ?_
  obtain ⟨x, hx, y, hy, hle⟩ := countPixels_pos.mp hpos
  have hlow := h.2 (level_mem_levels hx hy)
  omega

theorem rank_least (h : IsLeast (image.levels channel) low) :
    image.rank channel low = image.countPixels fun p => p.level channel = low :=
  countPixels_congr fun _ hx _ hy =>
    ⟨fun hle => le_antisymm hle (h.2 (level_mem_levels hx hy)), fun heq => heq.le⟩

theorem rank_of_le (h : IsGreatest (image.levels channel) high) (hv : high ≤ v) :
    image.rank channel v = image.pixelCount := by
  rw [← countPixels_true]
  exact countPixels_congr fun _ hx _ hy =>
    ⟨fun _ => trivial, fun _ => (h.2 (level_mem_levels hx hy)).trans hv⟩

/-- A value above the darkest one leaves pixels out of the lowest rank. -/
theorem rank_lt (h : IsGreatest (image.levels channel) high) (hv : v < high) :
    image.rank channel v < image.pixelCount := by
  have hsplit : (image.countPixels fun _ => True) = image.rank channel v
      + image.countPixels fun p => v < p.level channel :=
    countPixels_add (fun p => iff_of_true trivial (le_or_gt _ _)) fun p hle => not_lt.mpr hle
  have hrest : 0 < image.countPixels fun p => v < p.level channel := by
    obtain ⟨x, hx, y, hy, heq⟩ := h.1
    exact countPixels_pos.mpr ⟨x, hx, y, hy, heq ▸ hv⟩
  rw [countPixels_true] at hsplit
  omega

end Image

namespace Histogram

variable {image : Image} {channel : Channel} {low high : ℕ}

/-! ## Running sums -/

def addCount (ranks : Array ℕ × ℕ) (n : ℕ) : Array ℕ × ℕ :=
  (ranks.1.push (ranks.2 + n), ranks.2 + n)

theorem ranks_eq (h : Histogram) (channel : Channel) :
    h.ranks channel = ((h.counts.get channel).toList.foldl addCount (#[], 0)).1 := by
  rw [ranks, ← Array.foldl_toList]
  rfl

/-- The running sums are the sums of the first counts. -/
theorem foldl_addCount (counts : List ℕ) :
    counts.foldl addCount (#[], 0)
      = (((List.range counts.length).map fun v => (counts.take (v + 1)).sum).toArray,
        counts.sum) := by
  induction counts using List.reverseRecOn with
  | nil => rfl
  | append_singleton counts n ih =>
      have hfirst : ((List.range counts.length).map fun v => (counts.take (v + 1)).sum)
          = (List.range counts.length).map fun v => ((counts ++ [n]).take (v + 1)).sum := by
        refine List.map_congr_left fun v hv => ?_
        rw [List.mem_range] at hv
        rw [List.take_append_of_le_length hv]
      have hlast : (counts ++ [n]).take (counts.length + 1) = counts ++ [n] :=
        List.take_of_length_le (by rw [List.length_append, List.length_singleton])
      rw [List.foldl_append, ih, List.foldl_cons, List.foldl_nil, addCount, List.length_append,
        List.length_singleton, List.range_succ, List.map_append, ← hfirst, List.map_singleton,
        hlast, List.sum_append, List.sum_singleton, List.push_toArray]

theorem ranks_ofImage (image : Image) (channel : Channel) :
    (ofImage image).ranks channel
      = ((List.range image.depth.segments).map (image.rank channel)).toArray := by
  rw [ranks_eq, foldl_addCount, Array.length_toList, size_counts]
  refine congrArg List.toArray (List.map_congr_left fun v _ => ?_)
  rw [sum_take_counts]
  exact Image.countPixels_congr fun _ _ _ _ => Nat.lt_succ_iff

theorem getElem?_ranks {v : ℕ} (hv : v ≤ image.depth.maxValue) :
    ((ofImage image).ranks channel)[v]? = some (image.rank channel v) := by
  have hlt : v < image.depth.segments := Nat.lt_succ_of_le hv
  rw [ranks_ofImage, List.getElem?_toArray, List.getElem?_map, List.getElem?_range hlt,
    Option.map_some]

/-! ## The ends of the ranks -/

theorem lowestRank_ofImage (h : IsLeast (image.levels channel) low) :
    lowestRank ((ofImage image).ranks channel) = image.rank channel low := by
  have hlow : low ∈ List.range image.depth.segments :=
    List.mem_range.mpr (Nat.lt_succ_of_le (Image.le_of_mem_levels h.1))
  have hfind : (List.range image.depth.segments).find?
      ((fun r => decide (0 < r)) ∘ image.rank channel) = some low := by
    rw [List.find?_range_eq_some]
    refine ⟨?_, hlow, fun v hv => ?_⟩
    · rw [Function.comp_apply, decide_eq_true_eq, Image.rank_least h]
      exact Image.mem_levels_iff.mp h.1
    · rw [Function.comp_apply, Image.rank_of_lt h hv]
      rfl
  rw [lowestRank, ranks_ofImage, List.find?_toArray, List.find?_map, hfind]
  rfl

theorem highestRank_ofImage (image : Image) (channel : Channel) :
    highestRank ((ofImage image).ranks channel) = image.pixelCount := by
  have hall : image.rank channel image.depth.maxValue = image.pixelCount := by
    rw [← Image.countPixels_true]
    exact Image.countPixels_congr fun x _ y _ =>
      ⟨fun _ => trivial, fun _ => Nat.le_of_lt_succ ((image.fits_pixel x y).level_lt channel)⟩
  rw [highestRank, ranks_ofImage, List.back?_toArray, Depth.segments, List.range_succ,
    List.map_append, List.map_singleton, List.getLast?_concat, Option.getD_some, hall]

/-- The ranks end where they begin if no two pixels differ. -/
theorem lowestRank_eq_highestRank (h : (image.levels channel).Subsingleton) :
    lowestRank ((ofImage image).ranks channel) = highestRank ((ofImage image).ranks channel) := by
  rw [highestRank_ofImage]
  rcases (image.levels channel).eq_empty_or_nonempty with hempty | hnonempty
  · have hnone : image.pixelCount = 0 := by
      refine Nat.eq_zero_of_not_pos fun hpos => ?_
      exact (Image.levels_nonempty hpos channel).ne_empty hempty
    have hzero : ∀ v, image.rank channel v = 0 := fun v =>
      Nat.eq_zero_of_le_zero (hnone ▸ image.rank_le channel v)
    have hfind : (List.range image.depth.segments).find?
        ((fun r => decide (0 < r)) ∘ image.rank channel) = none := by
      rw [List.find?_eq_none]
      intro v _
      rw [Function.comp_apply, hzero]
      exact Bool.false_ne_true
    rw [lowestRank, ranks_ofImage, List.find?_toArray, List.find?_map, hfind, hnone]
    rfl
  · obtain ⟨low, high, hlow, hhigh⟩ := Image.exists_extremes hnonempty
    rw [lowestRank_ofImage hlow]
    exact Image.rank_of_le hhigh (h hhigh.1 hlow.1).le

/-! ## Entries -/

section

variable {top rank rank' : ℕ}

theorem rankEntry_mono (top low high : ℕ) : Monotone (rankEntry top low high) :=
  fun _ _ h => Nat.div_le_div_right (Nat.mul_le_mul_left top (Nat.sub_le_sub_right h low))

theorem rankEntry_le (h : rank ≤ high) : rankEntry top low high rank ≤ top := by
  refine Nat.div_le_of_le_mul ?_
  rw [Nat.mul_comm (high - low)]
  exact Nat.mul_le_mul_left top (Nat.sub_le_sub_right h low)

theorem rankEntry_of_le (h : rank ≤ low) : rankEntry top low high rank = 0 := by
  rw [rankEntry, Nat.sub_eq_zero_of_le h, Nat.mul_zero, Nat.zero_div]

theorem rankEntry_high (h : low < high) : rankEntry top low high high = top :=
  Nat.mul_div_cancel top (Nat.sub_pos_of_lt h)

end

/-! ## Tables -/

theorem depth_equalizeColor (h : Histogram) (luts : Luts) (component : Component) :
    (h.equalizeColor luts component).depth = luts.depth := by
  rw [equalizeColor]
  split
  · rfl
  · cases component <;> rfl

theorem table_equalizeColor_self (h : Histogram) {luts : Luts} (hdepth : luts.depth = h.depth)
    (c : Component) :
    (h.equalizeColor luts c).table c
      = if lowestRank (h.ranks c.channel) = highestRank (h.ranks c.channel) then luts.table c
        else some (Luts.tableOf h.depth fun v => rankEntry h.depth.maxValue
          (lowestRank (h.ranks c.channel)) (highestRank (h.ranks c.channel))
          ((h.ranks c.channel).getD v 0)) := by
  rw [equalizeColor]
  split
  · rfl
  · rw [← hdepth]
    cases c <;> rfl

/-- The table of a color. -/
theorem table_equalizing_color (h : Histogram) {c : Component} (hcolor : c ≠ .alpha) :
    h.equalizing.table c
      = if lowestRank (h.ranks c.channel) = highestRank (h.ranks c.channel) then none
        else some (Luts.tableOf h.depth fun v => rankEntry h.depth.maxValue
          (lowestRank (h.ranks c.channel)) (highestRank (h.ranks c.channel))
          ((h.ranks c.channel).getD v 0)) := by
  have hdepth : (Luts.empty h.depth).depth = h.depth := rfl
  simp only [equalizing, List.foldl_cons, List.foldl_nil]
  cases c with
  | red =>
      rw [table_equalizeColor h _ (by decide), table_equalizeColor h _ (by decide),
        table_equalizeColor_self h hdepth, Luts.table_empty]
  | green =>
      rw [table_equalizeColor h _ (by decide), table_equalizeColor_self h
        (by rw [depth_equalizeColor, hdepth]), table_equalizeColor h _ (by decide),
        Luts.table_empty]
  | blue =>
      rw [table_equalizeColor_self h (by rw [depth_equalizeColor, depth_equalizeColor, hdepth]),
        table_equalizeColor h _ (by decide), table_equalizeColor h _ (by decide), Luts.table_empty]
  | alpha => exact absurd rfl hcolor

end Histogram

end Darkroom
