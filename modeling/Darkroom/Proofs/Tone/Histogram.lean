import Darkroom.Proofs.Image.Pixels
import Darkroom.Proofs.Image.Layered
import Darkroom.Tone.Histogram
import Mathlib.Algebra.BigOperators.Group.List.Basic
import Mathlib.Algebra.GroupWithZero.Nat
import Mathlib.Data.Finset.Prod
import Mathlib.Data.Nat.Count

/-!
# What a histogram says

The count of a value is the number of positions at which an image shows it (`value_ofImage`), and a
sum of counts is the number of positions with a value of the range (`count_ofImage`). Both are told
by one loop over the pixels, in which every pixel adds one to the count of its value
(`getElem?_tally`).
-/

namespace Darkroom

/-! ## Pixels and positions -/

namespace Image

/-- At how many positions an image shows a pixel with a property. Histograms are compared with it,
so nothing about bytes or rows is left in what they count. -/
def countPixels (image : Image) (P : Pixel → Prop) [DecidablePred P] : ℕ :=
  ((Finset.range image.width.toNat ×ˢ Finset.range image.height.toNat).filter
    fun p => P (image.pixel p.1 p.2)).card

/-- The pixels by their positions, in the order of their indices. -/
theorem pixels_eq (image : Image) :
    Histogram.pixels image = (List.range image.pixelCount).map fun k =>
      image.pixel (k % image.width.toNat) (k / image.width.toNat) := by
  refine List.map_congr_left fun k _ => ?_
  rw [pixel, offset, index_of_place]

theorem mem_pixels {image : Image} {p : Pixel} :
    p ∈ Histogram.pixels image
      ↔ ∃ x < image.width.toNat, ∃ y < image.height.toNat, image.pixel x y = p := by
  rw [pixels_eq, List.mem_map]
  constructor
  · rintro ⟨k, hk, rfl⟩
    obtain ⟨hx, hy⟩ := place_lt (List.mem_range.mp hk)
    exact ⟨_, hx, _, hy, rfl⟩
  · rintro ⟨x, hx, y, hy, rfl⟩
    exact ⟨y * image.width.toNat + x, List.mem_range.mpr (index_lt hx hy), by
      rw [index_mod hx, index_div hx]⟩

@[simp]
theorem length_pixels (image : Image) : (Histogram.pixels image).length = image.pixelCount := by
  rw [pixels_eq, List.length_map, List.length_range]

theorem fits_of_mem_pixels {image : Image} {p : Pixel} (h : p ∈ Histogram.pixels image) :
    p.Fits image.depth := by
  obtain ⟨x, -, y, -, rfl⟩ := mem_pixels.mp h
  exact image.fits_pixel x y

theorem countPixels_eq (image : Image) (P : Pixel → Prop) [DecidablePred P] :
    image.countPixels P = (Histogram.pixels image).countP fun p => P p := by
  rw [pixels_eq, List.countP_map]
  refine Eq.trans ?_ (Nat.count_eq_card_filter_range (fun k =>
    P (image.pixel (k % image.width.toNat) (k / image.width.toNat))) _).symm
  refine Finset.card_nbij' (fun p => p.2 * image.width.toNat + p.1)
    (fun k => (k % image.width.toNat, k / image.width.toNat)) ?_ ?_ ?_ ?_
  · rintro ⟨x, y⟩ hp
    simp only [Finset.coe_filter, Finset.mem_product, Finset.mem_range, Set.mem_ofPred_eq] at hp ⊢
    obtain ⟨⟨hx, hy⟩, hP⟩ := hp
    rw [index_mod hx, index_div hx]
    exact ⟨index_lt hx hy, hP⟩
  · intro k hk
    simp only [Finset.coe_filter, Finset.mem_product, Finset.mem_range, Set.mem_ofPred_eq] at hk ⊢
    exact ⟨place_lt hk.1, hk.2⟩
  · rintro ⟨x, y⟩ hp
    simp only [Finset.coe_filter, Finset.mem_product, Finset.mem_range, Set.mem_ofPred_eq] at hp
    simp only [index_mod hp.1.1, index_div hp.1.1]
  · intro k _
    exact index_of_place

theorem countPixels_congr {image : Image} {P Q : Pixel → Prop} [DecidablePred P] [DecidablePred Q]
    (h : ∀ x < image.width.toNat, ∀ y < image.height.toNat,
      P (image.pixel x y) ↔ Q (image.pixel x y)) : image.countPixels P = image.countPixels Q := by
  rw [countPixels, countPixels]
  refine congrArg Finset.card (Finset.filter_congr fun p hp => ?_)
  rw [Finset.mem_product, Finset.mem_range, Finset.mem_range] at hp
  exact h _ hp.1 _ hp.2

theorem countPixels_pos {image : Image} {P : Pixel → Prop} [DecidablePred P] :
    0 < image.countPixels P
      ↔ ∃ x < image.width.toNat, ∃ y < image.height.toNat, P (image.pixel x y) := by
  rw [countPixels, Finset.card_pos]
  constructor
  · rintro ⟨⟨x, y⟩, hp⟩
    rw [Finset.mem_filter, Finset.mem_product, Finset.mem_range, Finset.mem_range] at hp
    exact ⟨x, hp.1.1, y, hp.1.2, hp.2⟩
  · rintro ⟨x, hx, y, hy, hP⟩
    refine ⟨(x, y), ?_⟩
    rw [Finset.mem_filter, Finset.mem_product, Finset.mem_range, Finset.mem_range]
    exact ⟨⟨hx, hy⟩, hP⟩

/-- A property that splits into two which exclude each other. -/
theorem countPixels_add {image : Image} {P Q R : Pixel → Prop} [DecidablePred P] [DecidablePred Q]
    [DecidablePred R] (hsplit : ∀ p, R p ↔ P p ∨ Q p) (hdisjoint : ∀ p, P p → ¬Q p) :
    image.countPixels R = image.countPixels P + image.countPixels Q := by
  rw [countPixels_congr (Q := fun p => P p ∨ Q p) fun _ _ _ _ => hsplit _, countPixels,
    countPixels, countPixels, Finset.filter_or, Finset.card_union_of_disjoint]
  exact Finset.disjoint_filter.mpr fun p _ => hdisjoint _

theorem countPixels_mono {image : Image} {P Q : Pixel → Prop} [DecidablePred P] [DecidablePred Q]
    (h : ∀ p, P p → Q p) : image.countPixels P ≤ image.countPixels Q := by
  refine Finset.card_le_card fun p hp => ?_
  rw [Finset.mem_filter] at hp ⊢
  exact ⟨hp.1, h _ hp.2⟩

theorem countPixels_true (image : Image) :
    image.countPixels (fun _ => True) = image.pixelCount := by
  rw [countPixels, Finset.filter_true, Finset.card_product, Finset.card_range, Finset.card_range]
  rfl

/-! ## Rows of pixels -/

def rowPixels (image : Image) (y : ℕ) : List Pixel :=
  (List.range image.width.toNat).map fun x => image.pixel x y

theorem pixels_eq_flatMap (image : Image) :
    Histogram.pixels image = (List.range image.height.toNat).flatMap image.rowPixels := by
  have hrows : ∀ h : ℕ, (List.range (image.width.toNat * h)).map (fun k =>
      image.pixel (k % image.width.toNat) (k / image.width.toNat))
      = (List.range h).flatMap image.rowPixels := by
    intro h
    induction h with
    | zero => rfl
    | succ h ih =>
        rw [Nat.mul_succ, List.range_add, List.map_append, ih, List.range_succ,
          List.flatMap_append, List.flatMap_singleton, List.map_map, rowPixels]
        congr 1
        refine List.map_congr_left fun x hx => ?_
        rw [List.mem_range] at hx
        rw [Function.comp_apply, Nat.mul_comm, index_mod hx, index_div hx]
  rw [pixels_eq]
  exact hrows _

/-- A pixel, read from the bytes of its row. -/
theorem WellFormed.read_row {image : Image} (h : image.WellFormed) {x y : ℕ}
    (hx : x < image.width.toNat) (hy : y < image.height.toNat) :
    Pixel.read image.depth (image.row y) (x * image.depth.pixelBytes) = image.pixel x y := by
  have hfits := h.row_fits hy
  have hchunk : x * image.depth.pixelBytes + image.depth.pixelBytes ≤ image.rowBytes :=
    chunk_fits hx _
  refine Pixel.read_of_bytes (image.fits_pixel x y) fun k hk => ?_
  rw [pixel, Pixel.byte_read _ _ _ hk, Array.getD_eq_getD_getElem?, Array.getD_eq_getD_getElem?,
    row, Array.getElem?_extract, if_pos, offset, ← rowBytes_place, ← Nat.add_assoc]
  rw [Nat.succ_mul, Nat.min_eq_left hfits]
  omega

theorem WellFormed.pixels?_row {image : Image} (h : image.WellFormed) {y : ℕ}
    (hy : y < image.height.toNat) :
    Bytes.pixels? image.depth (image.row y) = some (image.rowPixels y) := by
  have hcount : (image.row y).size / image.depth.pixelBytes = image.width.toNat := by
    rw [h.size_row hy, rowBytes, Nat.mul_div_cancel _ image.depth.pixelBytes_pos]
  rw [Bytes.pixels?, hcount]
  refine Bytes.mapM_eq_some fun x hx => ?_
  rw [List.mem_range] at hx
  rw [Bytes.pixel?_eq, h.read_row hx hy]
  rw [h.size_row hy]
  exact chunk_fits hx _

end Image

/-! ## Counting -/

theorem Pixel.level_channel (p : Pixel) (c : Component) :
    p.level c.channel = (p.component c).toNat := by
  cases c <;> rfl

theorem Pixel.Fits.level_lt {depth : Depth} {p : Pixel} (h : p.Fits depth) (channel : Channel) :
    p.level channel < depth.segments := by
  rw [Depth.segments, Nat.lt_succ_iff]
  cases channel with
  | luminosity => exact max_le (max_le (h .blue) (h .green)) (h .red)
  | red => exact h .red
  | green => exact h .green
  | blue => exact h .blue
  | alpha => exact h .alpha

namespace PerChannel

@[simp]
theorem get_ofFn {α : Type} (f : Channel → α) (channel : Channel) :
    (PerChannel.ofFn f).get channel = f channel := by
  cases channel <;> rfl

end PerChannel

namespace Histogram

theorem getElem?_tally (channel : Channel) (v : ℕ) : ∀ (pixels : List Pixel) (counts : Array ℕ),
    (tally channel counts pixels)[v]?
      = counts[v]?.map (· + pixels.countP fun p => p.level channel = v)
  | [], counts => by simp [tally]
  | p :: pixels, counts => by
      have hrest := getElem?_tally channel v pixels (counts.modify (p.level channel) (· + 1))
      rw [tally] at hrest ⊢
      rw [List.foldl_cons, hrest, Array.getElem?_modify, List.countP_cons]
      by_cases hv : p.level channel = v
      · rw [if_pos hv, if_pos (decide_eq_true hv), Option.map_map]
        congr 1
        funext n
        rw [Function.comp_apply]
        omega
      · rw [if_neg hv, if_neg (by simpa using hv), Nat.add_zero]

variable {image : Image} {channel : Channel}

theorem getElem?_counts (image : Image) (channel : Channel) {v : ℕ}
    (hv : v < image.depth.segments) :
    ((ofImage image).counts.get channel)[v]?
      = some (image.countPixels fun p => p.level channel = v) := by
  rw [ofImage, PerChannel.get_ofFn, getElem?_tally, Array.getElem?_replicate, if_pos hv,
    Option.map_some, Nat.zero_add, Image.countPixels_eq]

theorem size_counts (image : Image) (channel : Channel) :
    ((ofImage image).counts.get channel).size = image.depth.segments := by
  rw [ofImage, PerChannel.get_ofFn, tally]
  have hsize : ∀ (pixels : List Pixel) (counts : Array ℕ), (pixels.foldl
      (fun counts p => counts.modify (p.level channel) (· + 1)) counts).size = counts.size := by
    intro pixels
    induction pixels with
    | nil => exact fun _ => rfl
    | cons p pixels ih => exact fun counts => (ih _).trans Array.size_modify
  rw [hsize, Array.size_replicate]

/-- No pixel has a value beyond the depth. -/
theorem countPixels_eq_zero {v : ℕ} (hv : image.depth.segments ≤ v) :
    image.countPixels (fun p => p.level channel = v) = 0 := by
  rw [Image.countPixels_eq, List.countP_eq_zero]
  intro p hp heq
  have hlt := (Image.fits_of_mem_pixels hp).level_lt channel
  have hlevel : p.level channel = v := of_decide_eq_true heq
  omega

/-- The count of a value, which may be any number. -/
theorem value_ofImage (image : Image) (channel : Channel) (bin : ℤ) :
    (ofImage image).value channel bin
      = image.countPixels fun p => (p.level channel : ℤ) = bin := by
  rw [value]
  split
  · rename_i hneg
    rw [Image.countPixels_eq, eq_comm, List.countP_eq_zero]
    intro p _ heq
    have hlevel : (p.level channel : ℤ) = bin := of_decide_eq_true heq
    omega
  · rename_i hpos
    obtain ⟨v, rfl⟩ := Int.eq_ofNat_of_zero_le (not_lt.mp hpos)
    simp only [Int.toNat_natCast, Int.natCast_inj]
    rw [Array.getD_eq_getD_getElem?]
    rcases Nat.lt_or_ge v image.depth.segments with hlt | hge
    · rw [getElem?_counts image channel hlt, Option.getD_some]
    · rw [Array.getElem?_eq_none (by rwa [size_counts]), countPixels_eq_zero hge, Option.getD_none]

/-! ## Sums of counts -/

/-- The first counts, added up. -/
theorem sum_take_counts (image : Image) (channel : Channel) (n : ℕ) :
    (((ofImage image).counts.get channel).toList.take n).sum
      = image.countPixels fun p => p.level channel < n := by
  induction n with
  | zero =>
      rw [List.take_zero, List.sum_nil, eq_comm, Image.countPixels_eq, List.countP_eq_zero]
      intro p _ hlt
      exact absurd (of_decide_eq_true hlt) (Nat.not_lt_zero _)
  | succ n ih =>
      have hnext : (image.countPixels fun p => p.level channel < n + 1)
          = image.countPixels (fun p => p.level channel < n)
            + image.countPixels fun p => p.level channel = n :=
        Image.countPixels_add (fun p => Nat.lt_succ_iff_lt_or_eq) fun p hlt => Nat.ne_of_lt hlt
      rw [List.take_add_one, List.sum_append, ih, hnext, Array.getElem?_toList]
      congr 1
      rcases Nat.lt_or_ge n image.depth.segments with hlt | hge
      · rw [getElem?_counts image channel hlt]
        rfl
      · rw [Array.getElem?_eq_none (by rwa [size_counts]), countPixels_eq_zero hge]
        rfl

/-- The counts of a channel make up all pixels. -/
theorem sum_counts (image : Image) (channel : Channel) :
    ((ofImage image).counts.get channel).toList.sum = image.pixelCount := by
  have hall : ((ofImage image).counts.get channel).toList.take image.depth.segments
      = ((ofImage image).counts.get channel).toList :=
    List.take_of_length_le (by rw [Array.length_toList, size_counts])
  rw [← hall, sum_take_counts, Image.countPixels_eq, ← Image.length_pixels, List.countP_eq_length]
  exact fun p hp => decide_eq_true ((Image.fits_of_mem_pixels hp).level_lt channel)

theorem count_ofImage (image : Image) (channel : Channel) (first last : ℕ) :
    (ofImage image).count channel first last
      = image.countPixels fun p => first ≤ p.level channel ∧ p.level channel ≤ last := by
  have hsplit : (image.countPixels fun p => p.level channel < last + 1)
      = image.countPixels (fun p => p.level channel < min first (last + 1))
        + image.countPixels fun p => first ≤ p.level channel ∧ p.level channel ≤ last :=
    Image.countPixels_add (fun p => by omega) fun p => by omega
  have hsum := List.sum_take_add_sum_drop
    (((ofImage image).counts.get channel).toList.take (last + 1)) first
  rw [List.take_take, sum_take_counts, sum_take_counts] at hsum
  rw [count, ← List.sum_eq_foldl_nat]
  omega

end Histogram

end Darkroom
