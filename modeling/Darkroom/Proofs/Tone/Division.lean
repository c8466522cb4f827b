import Darkroom.Proofs.Image.Words
import Darkroom.Proofs.Tone.Histogram
import Darkroom.Tone.Division

/-!
# The parts do not show in a histogram

The array of a part holds at each place how many of its pixels are counted there (`tallied`). One
more row, and the sum of two such arrays, give the array of all their pixels (`countRow?_eq`,
`sum?_eq`), and in which order the pixels come does not matter (`tallied_perm`). So whichever way the
rows are shared out, the sections of the last array are the counts of the whole image
(`counted_in_parts`).
-/

namespace Darkroom.Histogram

open Image.Words (unsigned? unsigned?_eq)

namespace Sections

variable {depth : Depth}

/-! ## Places -/

theorem place_lt {channel : Channel} {v : ℕ} (hv : v < depth.segments) :
    place depth channel v < Channel.all.length * depth.segments := by
  rw [Nat.mul_comm]
  exact Image.index_lt hv (by cases channel <;> decide)

theorem place_inj {c c' : Channel} {v v' : ℕ} (hv : v < depth.segments)
    (hv' : v' < depth.segments) : place depth c v = place depth c' v' ↔ c = c' ∧ v = v' := by
  constructor
  · intro h
    have hindex := congrArg (· / depth.segments) h
    have hvalue := congrArg (· % depth.segments) h
    simp only [place, Image.index_div hv, Image.index_div hv', Image.index_mod hv,
      Image.index_mod hv'] at hindex hvalue
    refine ⟨?_, hvalue⟩
    cases c <;> cases c' <;> first | rfl | exact absurd hindex (by decide)
  · rintro ⟨rfl, rfl⟩
    rfl

/-- In the section of a channel a pixel is counted at the place of its value. -/
theorem count_places {p : Pixel} (hp : p.Fits depth) {channel : Channel} {v : ℕ}
    (hv : v < depth.segments) :
    (places depth p).count (place depth channel v) = if p.level channel = v then 1 else 0 := by
  have hplace : ∀ c, (place depth c (p.level c) == place depth channel v)
      = decide (c = channel ∧ p.level channel = v) := fun c => by
    rw [beq_eq_decide, decide_eq_decide, place_inj (hp.level_lt c) hv]
    constructor
    · rintro ⟨rfl, h⟩
      exact ⟨rfl, h⟩
    · rintro ⟨rfl, h⟩
      exact ⟨rfl, h⟩
  rw [places, List.count, List.countP_map]
  simp only [Function.comp_def, hplace]
  split
  · rename_i heq
    simp only [heq, and_true]
    cases channel <;> rfl
  · rename_i hne
    simp only [hne, and_false, decide_false]
    rfl

theorem lt_of_mem_places {p : Pixel} (hp : p.Fits depth) {i : ℕ} (hi : i ∈ places depth p) :
    i < Channel.all.length * depth.segments := by
  obtain ⟨channel, -, rfl⟩ := List.mem_map.mp hi
  exact place_lt (hp.level_lt channel)

/-! ## The array of some pixels -/

def total (depth : Depth) (pixels : List Pixel) (i : ℕ) : ℕ :=
  (pixels.map fun p => (places depth p).count i).sum

theorem total_append (pixels pixels' : List Pixel) (i : ℕ) :
    total depth (pixels ++ pixels') i = total depth pixels i + total depth pixels' i := by
  rw [total, List.map_append, List.sum_append]
  rfl

/-- Every pixel is counted five times. -/
theorem total_le (depth : Depth) (pixels : List Pixel) (i : ℕ) :
    total depth pixels i ≤ 5 * pixels.length := by
  induction pixels with
  | nil => exact Nat.le_refl 0
  | cons p pixels ih =>
      have hplaces : (places depth p).count i ≤ 5 := List.count_le_length
      rw [total, List.map_cons, List.sum_cons, List.length_cons]
      rw [total] at ih
      omega

/-- In the section of a channel there are the numbers of pixels with each value. -/
theorem total_place {pixels : List Pixel} (hfits : ∀ p ∈ pixels, p.Fits depth) {channel : Channel}
    {v : ℕ} (hv : v < depth.segments) :
    total depth pixels (place depth channel v) = pixels.countP fun p => p.level channel = v := by
  induction pixels with
  | nil => rfl
  | cons p pixels ih =>
      have hrest := ih fun q hq => hfits q (List.mem_cons_of_mem _ hq)
      rw [total] at hrest ⊢
      rw [List.map_cons, List.sum_cons, hrest, count_places (hfits p List.mem_cons_self) hv,
        List.countP_cons, Nat.add_comm]
      simp only [decide_eq_true_eq]

/-- The array that holds at each place how often pixels are counted there. It depends on the pixels
as a multiset only, so it is the same for every division of the rows among workers. -/
def tallied (depth : Depth) (pixels : List Pixel) : Array ℕ :=
  Array.ofFn fun i : Fin (Channel.all.length * depth.segments) => total depth pixels i.val

@[simp]
theorem size_tallied (depth : Depth) (pixels : List Pixel) :
    (tallied depth pixels).size = Channel.all.length * depth.segments :=
  Array.size_ofFn

theorem getElem?_tallied {i : ℕ} (hi : i < Channel.all.length * depth.segments)
    (pixels : List Pixel) : (tallied depth pixels)[i]? = some (total depth pixels i) := by
  rw [tallied, Array.getElem?_ofFn, dif_pos hi]

theorem eq_tallied {counts : Array ℕ} {pixels : List Pixel}
    (hsize : counts.size = Channel.all.length * depth.segments)
    (h : ∀ i < Channel.all.length * depth.segments, counts[i]? = some (total depth pixels i)) :
    counts = tallied depth pixels := by
  refine Array.ext_getElem? fun i => ?_
  rcases Nat.lt_or_ge i (Channel.all.length * depth.segments) with hlt | hge
  · rw [h i hlt, getElem?_tallied hlt]
  · rw [Array.getElem?_eq_none (hsize ▸ hge), Array.getElem?_eq_none (by rwa [size_tallied])]

theorem zeros_eq (depth : Depth) : zeros depth = tallied depth [] := by
  refine eq_tallied Array.size_replicate fun i hi => ?_
  rw [zeros, Array.getElem?_replicate, if_pos hi]
  rfl

theorem tallied_perm {pixels pixels' : List Pixel} (h : pixels.Perm pixels') :
    tallied depth pixels = tallied depth pixels' := by
  refine eq_tallied (size_tallied depth pixels) fun i hi => ?_
  rw [getElem?_tallied hi, total, total, (h.map _).sum_eq]

/-! ## Counting and adding -/

theorem countAt?_eq {counts : Array ℕ} {i n : ℕ} (h : counts[i]? = some n)
    (hn : n + 1 < 0x10000000000000000) :
    countAt? counts i = some (counts.setIfInBounds i (n + 1)) := by
  rw [countAt?, h, Option.bind_eq_bind, Option.bind_some, unsigned?_eq hn]
  rfl

/-- One more at each place of a list, which may name a place more than once. -/
theorem foldlM_countAt? : ∀ (places : List ℕ) (counts : Array ℕ), (∀ i ∈ places, i < counts.size) →
    (∀ i n : ℕ, counts[i]? = some n → n + places.length < 0x10000000000000000) →
    ∃ new, places.foldlM countAt? counts = some new ∧ new.size = counts.size
      ∧ ∀ i, new[i]? = counts[i]?.map (· + places.count i)
  | [], counts, _, _ => ⟨counts, rfl, rfl, fun i => by simp⟩
  | i :: places, counts, hinside, hfit => by
      obtain ⟨n, hn⟩ : ∃ n, counts[i]? = some n :=
        ⟨_, Array.getElem?_eq_getElem (hinside i List.mem_cons_self)⟩
      have hroom := hfit i n hn
      rw [List.length_cons] at hroom
      have hstep := countAt?_eq hn (by omega)
      -- The rest of the list may name the place again: its new count has room for one less.
      obtain ⟨new, hnew, hsize, hvalue⟩ := foldlM_countAt? places (counts.setIfInBounds i (n + 1))
        (fun j hj => by
          rw [Array.size_setIfInBounds]
          exact hinside j (List.mem_cons_of_mem _ hj))
        (fun j m hm => by
          rw [Array.getElem?_setIfInBounds] at hm
          split at hm
          · split at hm
            · cases hm
              omega
            · cases hm
          · have hold := hfit j m hm
            rw [List.length_cons] at hold
            omega)
      refine ⟨new, ?_, hsize.trans Array.size_setIfInBounds, fun j => ?_⟩
      · rw [List.foldlM_cons, hstep, Option.bind_eq_bind, Option.bind_some, hnew]
      · rw [hvalue, Array.getElem?_setIfInBounds, List.count_cons]
        by_cases hj : i = j
        · subst hj
          rw [if_pos rfl, if_pos (hinside i List.mem_cons_self), hn]
          simp
          omega
        · simp [hj]

/-- One more pixel, where the counts leave room for it. -/
theorem countPixel?_eq {pixels : List Pixel} {p : Pixel} (hp : p.Fits depth)
    (hroom : 5 * (pixels.length + 1) < 0x10000000000000000) :
    countPixel? depth (tallied depth pixels) p = some (tallied depth (pixels ++ [p])) := by
  obtain ⟨new, hnew, hsize, hvalue⟩ := foldlM_countAt? (places depth p) (tallied depth pixels)
    (fun i hi => by
      rw [size_tallied]
      exact lt_of_mem_places hp hi)
    (fun i n hn => by
      have hi := (Array.getElem?_eq_some_iff.mp hn).1
      rw [size_tallied] at hi
      rw [getElem?_tallied hi, Option.some.injEq] at hn
      have hle := total_le depth pixels i
      have hplaces : (places depth p).length = 5 := rfl
      omega)
  rw [countPixel?, hnew, Option.some.injEq]
  refine eq_tallied (hsize.trans (size_tallied _ _)) fun i hi => ?_
  rw [hvalue, getElem?_tallied hi, Option.map_some, total_append]
  rfl

/-- More pixels. -/
theorem foldlM_countPixel? : ∀ {more pixels : List Pixel}, (∀ p ∈ more, p.Fits depth) →
    5 * (pixels ++ more).length < 0x10000000000000000 →
    more.foldlM (countPixel? depth) (tallied depth pixels) = some (tallied depth (pixels ++ more))
  | [], pixels, _, _ => by rw [List.append_nil]; rfl
  | p :: more, pixels, hfits, hroom => by
      rw [List.append_cons] at hroom ⊢
      have hlength : pixels.length + 1 ≤ (pixels ++ [p] ++ more).length := by
        rw [List.length_append, List.length_append, List.length_singleton]
        omega
      rw [List.foldlM_cons, countPixel?_eq (hfits p List.mem_cons_self) (by omega),
        Option.bind_eq_bind, Option.bind_some]
      exact foldlM_countPixel? (fun q hq => hfits q (List.mem_cons_of_mem _ hq)) hroom

theorem sum?_eq {pixels pixels' : List Pixel}
    (hroom : 5 * (pixels ++ pixels').length < 0x10000000000000000) :
    sum? (tallied depth pixels) (tallied depth pixels')
      = some (tallied depth (pixels ++ pixels')) := by
  have hsum : (List.range (tallied depth pixels).size).mapM (fun i =>
      unsigned? ((tallied depth pixels).getD i 0 + (tallied depth pixels').getD i 0))
      = some ((List.range (tallied depth pixels).size).map (total depth (pixels ++ pixels'))) := by
    refine Bytes.mapM_eq_some fun i hi => ?_
    rw [List.mem_range, size_tallied] at hi
    have hle := total_le depth (pixels ++ pixels') i
    rw [total_append] at hle ⊢
    rw [Array.getD_eq_getD_getElem?, Array.getD_eq_getD_getElem?, getElem?_tallied hi,
      getElem?_tallied hi]
    exact unsigned?_eq (by simp only [Option.getD_some]; omega)
  rw [sum?, hsum, Option.map_some, Option.some.injEq]
  refine eq_tallied (by simp) fun i hi => ?_
  simp [hi]

/-! ## Rows and parts -/

variable {image : Image}

/-- One more row of an image. -/
theorem countRow?_eq (hwf : image.WellFormed) {y : ℕ} (hy : y < image.height.toNat)
    {pixels : List Pixel}
    (hroom : 5 * (pixels ++ image.rowPixels y).length < 0x10000000000000000) :
    countRow? image.depth (tallied image.depth pixels) (image.row y)
      = some (tallied image.depth (pixels ++ image.rowPixels y)) := by
  rw [countRow?, hwf.pixels?_row hy, Option.bind_eq_bind, Option.bind_some]
  refine foldlM_countPixel? (fun p hp => ?_) hroom
  obtain ⟨x, -, rfl⟩ := List.mem_map.mp hp
  exact image.fits_pixel x y

/-- More rows of an image. -/
theorem foldlM_countRow? (hwf : image.WellFormed) : ∀ {rows : List ℕ} {pixels : List Pixel},
    (∀ y ∈ rows, y < image.height.toNat) →
    5 * (pixels ++ rows.flatMap image.rowPixels).length < 0x10000000000000000 →
    rows.foldlM (fun counts y => countRow? image.depth counts (image.row y))
        (tallied image.depth pixels)
      = some (tallied image.depth (pixels ++ rows.flatMap image.rowPixels))
  | [], pixels, _, _ => by rw [List.flatMap_nil, List.append_nil]; rfl
  | y :: rows, pixels, hinside, hroom => by
      rw [List.flatMap_cons, ← List.append_assoc] at hroom ⊢
      have hlength : (pixels ++ image.rowPixels y).length
          ≤ (pixels ++ image.rowPixels y ++ rows.flatMap image.rowPixels).length :=
        (List.prefix_append _ _).length_le
      rw [List.foldlM_cons, countRow?_eq hwf (hinside y List.mem_cons_self) (by omega),
        Option.bind_eq_bind, Option.bind_some]
      exact foldlM_countRow? hwf (fun z hz => hinside z (List.mem_cons_of_mem _ hz)) hroom

/-- However rows are shared out, the last array is that of all their pixels. -/
theorem count?_eq (hwf : image.WellFormed) : ∀ {division : Division},
    (∀ y ∈ division.rows, y < image.height.toNat) →
    5 * (division.rows.flatMap image.rowPixels).length < 0x10000000000000000 →
    count? image division
      = some (tallied image.depth (division.rows.flatMap image.rowPixels))
  | .part rows, hinside, hroom => by
      rw [count?, zeros_eq]
      exact foldlM_countRow? hwf hinside hroom
  | .join first second, hinside, hroom => by
      rw [Division.rows, List.flatMap_append] at hroom
      have hlength : (first.rows.flatMap image.rowPixels
          ++ second.rows.flatMap image.rowPixels).length
          = (first.rows.flatMap image.rowPixels).length
            + (second.rows.flatMap image.rowPixels).length := List.length_append
      rw [count?, count?_eq hwf (fun y hy => hinside y (List.mem_append_left _ hy)) (by omega),
        count?_eq hwf (fun y hy => hinside y (List.mem_append_right _ hy)) (by omega),
        Option.bind_eq_bind, Option.bind_some, Option.bind_some, sum?_eq hroom, Division.rows,
        List.flatMap_append]

/-! ## Sections -/

/-- The section of a channel is what counting that channel alone gives. -/
theorem ofChannel_tallied {pixels : List Pixel} (hfits : ∀ p ∈ pixels, p.Fits depth)
    (channel : Channel) :
    ofChannel depth (tallied depth pixels) channel
      = tally channel (Array.replicate depth.segments 0) pixels := by
  refine Array.ext_getElem? fun v => ?_
  have hplace : place depth channel 0 + v = place depth channel v := by
    rw [place, place, Nat.add_zero]
  have hend : place depth channel 0 + depth.segments ≤ (tallied depth pixels).size := by
    have hlast : place depth channel depth.maxValue < Channel.all.length * depth.segments :=
      place_lt (Nat.lt_succ_self _)
    rw [size_tallied, Depth.segments]
    rw [Depth.segments] at hlast
    rw [place] at hlast ⊢
    rw [Depth.segments] at hlast ⊢
    omega
  rw [ofChannel, Array.getElem?_extract, Nat.min_eq_left hend, hplace, getElem?_tally,
    Array.getElem?_replicate]
  by_cases hv : v < depth.segments
  · rw [if_pos (by omega), if_pos hv, getElem?_tallied (place_lt hv), total_place hfits hv,
      Option.map_some, Nat.zero_add]
  · rw [if_neg (by omega), if_neg hv]
    rfl

end Sections

/-! ## Histograms -/

variable {image : Image}

/-- An image has so few pixels that no count overflows. -/
theorem five_mul_pixelCount_lt (hwf : image.WellFormed) :
    5 * image.pixelCount < 0x10000000000000000 := by
  have hsize := hwf.size_lt
  rw [hwf.bytes_size] at hsize
  have hbytes : 4 * image.pixelCount ≤ image.pixelCount * image.depth.pixelBytes := by
    rw [Nat.mul_comm]
    exact Nat.mul_le_mul_left _ (by cases image.depth <;> decide)
  omega

theorem inParts?_eq (hwf : image.WellFormed) {division : Division}
    (hrows : division.rows.Perm (List.range image.height.toNat)) :
    inParts? image division = some (ofImage image) := by
  -- The parts have the pixels of the image, in another order.
  have hpixels : (division.rows.flatMap image.rowPixels).Perm (pixels image) := by
    rw [Image.pixels_eq_flatMap]
    exact hrows.flatMap_right _
  have hcounts : Sections.all? image division
      = some (Sections.tallied image.depth (pixels image)) := by
    rw [Sections.all?]
    split
    · rename_i hnone
      have hwidth : image.width.toNat = 0 :=
        (Nat.mul_eq_zero.mp hnone).resolve_right image.depth.pixelBytes_pos.ne'
      have hempty : pixels image = [] := by
        rw [← List.length_eq_zero_iff, Image.length_pixels]
        exact Nat.mul_eq_zero.mpr (.inl hwidth)
      rw [Sections.zeros_eq, hempty]
    · rw [Sections.count?_eq hwf, Sections.tallied_perm hpixels]
      · exact fun y hy => List.mem_range.mp (hrows.subset hy)
      · rw [hpixels.length_eq, Image.length_pixels]
        exact five_mul_pixelCount_lt hwf
  rw [inParts?, hcounts, Option.map_some, ofImage]
  congr 3
  funext channel
  exact Sections.ofChannel_tallied (fun p hp => Image.fits_of_mem_pixels hp) channel

/-- Whichever way the rows of an image are shared out among parts that are counted by themselves and
added in some order, no count overflows and the histogram is the same. It has for every channel the
number of pixels of each value, which make up all pixels, and gives the number of pixels with a value
in a range. -/
theorem counted_in_parts {image : Image} (hwf : image.WellFormed) {division : Division}
    (hrows : division.rows.Perm (List.range image.height.toNat)) :
    ∃ h, inParts? image division = some h ∧ h = ofImage image
      ∧ h.depth = image.depth ∧ h.pixelCount = image.width.toNat * image.height.toNat
      ∧ (∀ channel (bin : ℤ),
          h.value channel bin = image.countPixels fun p => (p.level channel : ℤ) = bin)
      ∧ (∀ channel, (h.counts.get channel).toList.sum = h.pixelCount)
      ∧ ∀ channel first last, h.count channel first last
          = image.countPixels fun p => first ≤ p.level channel ∧ p.level channel ≤ last :=
  ⟨ofImage image, inParts?_eq hwf hrows, rfl, rfl, rfl, value_ofImage image, sum_counts image,
    count_ofImage image⟩

def twoRows : Image :=
  ⟨2, 2, .eight, true, #[10, 20, 30, 255, 10, 0, 30, 255, 50, 20, 5, 128, 10, 20, 30, 0]⟩

/-- The rows are counted by themselves, the lower one first, beside two parts without rows. -/
theorem counted_in_parts_twoRows :
    let division : Division := .join (.join (.part []) (.part [1])) (.join (.part [0]) (.part []))
    twoRows.WellFormed ∧ division.rows.Perm (List.range twoRows.height.toNat)
      ∧ ∃ h, inParts? twoRows division = some h ∧ h.value .luminosity 30 = 3
        ∧ h.value .blue 10 = 3 ∧ h.value .alpha 255 = 2 ∧ h.value .red (-1) = 0
        ∧ h.value .red 256 = 0 ∧ (h.counts.get .green).toList.sum = 4
        ∧ h.count .green 1 1000000 = 3 ∧ h.count .green 300 400 = 0 ∧ h.count .red 30 5 = 0 := by
  intro division
  have hwf : twoRows.WellFormed := Or.inr (by decide)
  have hrows : division.rows.Perm (List.range twoRows.height.toNat) := by decide
  obtain ⟨h, hparts, -, -, hpixels, hvalue, hsum, hcount⟩ := counted_in_parts hwf hrows
  refine ⟨hwf, hrows, h, hparts, ?_, ?_, ?_, ?_, ?_, ?_, ?_, ?_, ?_⟩
  · rw [hvalue]
    decide
  · rw [hvalue]
    decide
  · rw [hvalue]
    decide
  · rw [hvalue]
    decide
  · rw [hvalue]
    decide
  · rw [hsum, hpixels]
    decide
  · rw [hcount]
    decide
  · rw [hcount]
    decide
  · rw [hcount]
    decide

end Darkroom.Histogram
