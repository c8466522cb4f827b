import Darkroom.Proofs.Image.Words
import Darkroom.Proofs.Tone.Ranges
import Darkroom.Tone.Words

/-!
# No word overflows when tables are made

A rank is at most the number of pixels. While that has 48 bits, the product of a rank and a channel
value has 64 (`ranked?_eq`); the product of two channel values always has 32 (`stretched?_eq`).
So the tables in machine words are the tables in natural numbers (`equalizing?_eq`,
`normalizing?_eq`). The steps of contrast are kept far inside of 64 bits by their limit, so all they
need is a power that is no number near the end of these (`Contrast.Words.luts?_eq`).
-/

namespace Darkroom.Histogram.Words

open Image.Words (unsigned? unsigned?_eq difference? channel?)

/-! ## Words -/

theorem difference?_eq {a b : ℕ} (h : b ≤ a) : difference? a b = some (a - b) :=
  if_pos h

theorem channel?_eq {n : ℕ} (h : n < 0x10000) : channel? n = some (UInt16.ofNat n) :=
  if_pos h

theorem short?_eq {n : ℕ} (h : n < 0x100000000) : short? n = some n :=
  if_pos h

theorem quotient?_eq {a b : ℕ} (h : 0 < b) : quotient? a b = some (a / b) :=
  if_neg h.ne'

/-- A table is that of a function of natural numbers if its entries are. -/
theorem tableOf?_eq {depth : Depth} {f? : ℕ → Option UInt16} {f : ℕ → ℕ}
    (h : ∀ v ≤ depth.maxValue, f? v = some (UInt16.ofNat (f v))) :
    tableOf? depth f? = some (Luts.tableOf depth f) := by
  have hentries : (List.range depth.segments).mapM f?
      = some ((List.range depth.segments).map fun v => UInt16.ofNat (f v)) :=
    Bytes.mapM_eq_some fun v hv => h v (Nat.le_of_lt_succ (List.mem_range.mp hv))
  rw [tableOf?, hentries, Option.map_some, Option.some.injEq]
  refine Array.ext_getElem? fun v => ?_
  rw [List.getElem?_toArray, List.getElem?_map, Luts.tableOf, Array.getElem?_ofFn]
  split
  · rename_i hlt
    rw [List.getElem?_range hlt, Option.map_some]
  · rename_i hge
    rw [List.getElem?_eq_none (by rwa [List.length_range, ← not_lt]), Option.map_none]

/-! ## Equalization -/

theorem foldlM_addCount? : ∀ {counts : List ℕ} {ranks : Array ℕ × ℕ},
    ranks.2 + counts.sum < 0x10000000000000000 →
    counts.foldlM addCount? ranks = some (counts.foldl addCount ranks)
  | [], _, _ => rfl
  | n :: counts, ranks, h => by
      rw [List.sum_cons] at h
      have hstep : addCount? ranks n = some (addCount ranks n) := by
        rw [addCount?, unsigned?_eq (by omega)]
        rfl
      rw [List.foldlM_cons, hstep, Option.bind_eq_bind, Option.bind_some, List.foldl_cons]
      refine foldlM_addCount? ?_
      rw [addCount]
      omega

variable {image : Image}

theorem ranks?_eq (h : image.pixelCount < 0x10000000000000000) (channel : Channel) :
    ranks? (ofImage image) channel = some ((ofImage image).ranks channel) := by
  rw [ranks?, foldlM_addCount? (by rwa [sum_counts, Nat.zero_add]), Option.map_some, ranks_eq]

/-- The product of a rank and a channel value fits as long as the number of pixels has 48 bits. -/
theorem ranked?_eq {top low high rank v : ℕ} {ranks : Array ℕ} (hrank : ranks[v]? = some rank)
    (htop : top < 0x10000) (hlow : low < high) (hle : rank ≤ high)
    (hhigh : high < 0x1000000000000) :
    ranked? top low high ranks v = some (UInt16.ofNat (rankEntry top low high rank)) := by
  have hproduct : top * (rank - low) < 0x10000000000000000 :=
    calc top * (rank - low) ≤ 0xffff * 0x1000000000000 := Nat.mul_le_mul (by omega) (by omega)
      _ < 0x10000000000000000 := by decide
  have hentry : rankEntry top low high rank ≤ top := rankEntry_le hle
  rw [rankEntry] at hentry
  rw [ranked?, hrank, Option.bind_eq_bind, Option.bind_some, unsigned?_eq hproduct,
    Option.bind_some, difference?_eq hlow.le, Option.bind_some, quotient?_eq (by omega),
    Option.bind_some, channel?_eq (by omega)]
  rfl

theorem lowestRank_le (image : Image) (channel : Channel) :
    lowestRank ((ofImage image).ranks channel) ≤ image.pixelCount := by
  rcases (image.levels channel).eq_empty_or_nonempty with hempty | hnonempty
  · rw [lowestRank_eq_highestRank (hempty ▸ Set.subsingleton_empty), highestRank_ofImage]
  · obtain ⟨low, high, hlow, -⟩ := Image.exists_extremes hnonempty
    rw [lowestRank_ofImage hlow]
    exact image.rank_le channel low

theorem equalizeColor?_eq (h : image.pixelCount < 0x1000000000000) {luts : Luts}
    (hdepth : luts.depth = image.depth) (c : Component) :
    equalizeColor? (ofImage image) luts c = some ((ofImage image).equalizeColor luts c) := by
  have hends := lowestRank_le image c.channel
  rw [equalizeColor?, ranks?_eq (by omega), Option.bind_eq_bind, Option.bind_some, equalizeColor]
  dsimp only
  split
  · rfl
  · rename_i hne
    rw [highestRank_ofImage] at hne ⊢
    rw [tableOf?_eq fun v hv => ?_, Option.map_some, Luts.withTable, hdepth]
    · rfl
    · rw [ranked?_eq (getElem?_ranks hv) (Depth.maxValue_lt _) (by omega)
        (image.rank_le c.channel v) h]
      rw [Array.getD_eq_getD_getElem?, getElem?_ranks hv, Option.getD_some]

/-- With fewer than 2^48 pixels no word overflows in equalization. -/
theorem equalizing?_eq (h : image.pixelCount < 0x1000000000000) :
    equalizing? (ofImage image) = some (ofImage image).equalizing := by
  have hdepth : (Luts.empty (ofImage image).depth).depth = image.depth := rfl
  rw [equalizing?, List.foldlM_cons, equalizeColor?_eq h hdepth, Option.bind_eq_bind,
    Option.bind_some, List.foldlM_cons, equalizeColor?_eq h (by rw [depth_equalizeColor, hdepth]),
    Option.bind_eq_bind, Option.bind_some, List.foldlM_cons, equalizeColor?_eq h
      (by rw [depth_equalizeColor, depth_equalizeColor, hdepth]), Option.bind_eq_bind,
    Option.bind_some, List.foldlM_nil]
  rfl

/-! ## Normalization -/

theorem stretched?_eq {top low high v : ℕ} (htop : top < 0x10000) (hlow : low ≤ high)
    (hv : v ≤ top) :
    stretched? top low high (high - low) v
      = some (UInt16.ofNat (stretchEntry top low high v)) := by
  rw [stretched?]
  split
  · rename_i hbelow
    rw [stretchEntry_below hbelow]
    rfl
  rename_i hbelow
  split
  · rename_i habove
    rw [stretchEntry_above (not_lt.mp hbelow) habove]
    exact channel?_eq htop
  rename_i habove
  rw [stretchEntry_inside (not_lt.mp hbelow) (not_lt.mp habove)]
  split
  · rename_i hflat
    rw [if_pos (by omega)]
    exact channel?_eq (by omega)
  · rename_i hwide
    have hproduct : top * (v - low) < 0x100000000 :=
      calc top * (v - low) ≤ 0xffff * 0xffff := Nat.mul_le_mul (by omega) (by omega)
        _ < 0x100000000 := by decide
    have hentry : rankEntry top low high v ≤ top := rankEntry_le (not_lt.mp habove)
    rw [rankEntry] at hentry
    rw [if_neg (by omega), difference?_eq (not_lt.mp hbelow), Option.bind_eq_bind,
      Option.bind_some, short?_eq hproduct, Option.bind_some, quotient?_eq (by omega),
      Option.bind_some, channel?_eq (by omega)]
    rfl

theorem colorRange?_eq {h : Histogram} {low high : ℕ} (hrange : h.colorRange? = some (low, high))
    (hlow : low < 0x10000) (hhigh : high < 0x10000) : colorRange? h = some (low, high) := by
  rw [colorRange?, hrange, Option.bind_eq_bind, Option.bind_some]
  dsimp only
  rw [channel?_eq hlow, Option.bind_eq_bind, Option.bind_some, channel?_eq hhigh,
    Option.bind_some, UInt16.toNat_ofNat_of_lt' hlow, UInt16.toNat_ofNat_of_lt' hhigh]

/-- No word overflows in normalization. -/
theorem normalizing?_eq (image : Image) :
    normalizing? (ofImage image) = some (ofImage image).normalizing := by
  rcases Nat.eq_zero_or_pos image.pixelCount with hempty | hpixels
  · have hrange : colorRange? (ofImage image) = none := by
      rw [colorRange?, colorRange?_of_empty hempty]
      rfl
    simp only [normalizing?, hrange, normalizing_of_empty hempty]
    rfl
  · obtain ⟨low, high, hrange, hlow, hhigh⟩ := colorRange?_ofImage hpixels
    have hmax := image.depth.maxValue_lt
    have hlow' := Image.le_of_mem_colorLevels hlow.1
    have hhigh' := Image.le_of_mem_colorLevels hhigh.1
    have horder : low ≤ high := hlow.2 hhigh.1
    have htable : tableOf? image.depth (stretched? image.depth.maxValue low high (high - low))
        = some (Luts.tableOf image.depth (stretchEntry image.depth.maxValue low high)) :=
      tableOf?_eq fun v hv => stretched?_eq hmax horder hv
    have hdepth : (ofImage image).depth = image.depth := rfl
    simp only [normalizing?, colorRange?_eq hrange (by omega) (by omega), difference?_eq horder,
      hdepth, htable, Option.bind_eq_bind, Option.bind_some, normalizing_of_range hrange]
    rfl

end Darkroom.Histogram.Words

namespace Darkroom.Contrast.Words

open Histogram.Words (channel?_eq tableOf?_eq)
open Image.Words (signed?_eq)

/-! ## Brightness, contrast and gamma -/

/-- A power whose sum with the offset has 64 bits. Powers that are values of a depth are far within
these bounds. -/
def Moderate (v : ℤ) : Prop :=
  -0x4000000000000000 ≤ v ∧ v ≤ 0x4000000000000000

theorem bounded_within {α : Type} [Arith α] (x : α) : -limit ≤ bounded x ∧ bounded x ≤ limit := by
  have hlimit : -limit ≤ limit := by decide
  exact ⟨le_max_left _ _, max_le hlimit (min_le_left _ _)⟩

theorem adjusted_le {α : Type} [Arith α] (brightness contrast : α) (top : ℕ) (v : ℤ) :
    adjusted brightness contrast top v ≤ top :=
  Nat.min_le_right _ _

theorem adjusted?_eq {α : Type} [Arith α] (brightness contrast : α) {top : ℕ} (htop : top < 0x10000)
    {v : ℤ} (hv : Moderate v) :
    adjusted? brightness contrast top v
      = some (UInt16.ofNat (adjusted brightness contrast top v)) := by
  have hlimit : limit = 1000000000000000 := rfl
  obtain ⟨hlow, hhigh⟩ := hv
  obtain ⟨hmoved, hmoved'⟩ := bounded_within (brightness * Arith.ofNat top)
  obtain ⟨hscaled, hscaled'⟩ := bounded_within
    (Arith.ofInt (v + bounded (brightness * Arith.ofNat top) - (top / 2 : ℕ)) * contrast)
  have hentry := adjusted_le brightness contrast top v
  rw [adjusted, scaled, offset] at hentry
  rw [adjusted?]
  rw [signed?_eq (by omega), Option.bind_eq_bind, Option.bind_some, signed?_eq (by omega),
    Option.bind_some, signed?_eq (by omega), Option.bind_some, channel?_eq (by omega)]
  rfl

theorem luts?_eq (c : Contrast) (depth : Depth)
    (h : ∀ v ≤ depth.maxValue, Moderate (powered c.gamma depth.maxValue v)) :
    luts? c depth = some (c.luts depth) := by
  have htable : Histogram.Words.tableOf? depth (mapped? c depth)
      = some (Luts.tableOf depth (c.entry depth)) := by
    refine tableOf?_eq fun v hv => ?_
    obtain ⟨hlow, hhigh⟩ := h v hv
    rw [mapped?, signed?_eq (by omega), Option.bind_eq_bind, Option.bind_some,
      adjusted?_eq _ _ depth.maxValue_lt ⟨hlow, hhigh⟩]
    rfl
  rw [luts?, htable, Option.map_some, luts]
  cases c.channel <;> rfl

end Darkroom.Contrast.Words
