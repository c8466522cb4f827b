import Darkroom.Image.Resample
import Darkroom.Proofs.Arithmetic.Exact
import Darkroom.Proofs.Decimal.Quotient
import Darkroom.Proofs.Image.Pixels

/-!
# Colors between pixels

A color between pixels is a weighted sum over four taps, and the taps that lie outside of the image are
left out without a correction of the other weights. Along one axis the two weights belong to the two
places around a coordinate (`axis`), and a place behind the last one has no weight, since a coordinate
that was moved into the image is at most the last place (`sum_axis`). The taps are the pairs of places of
both axes, so the weights of those in the image sum to one (`sum_near`). A sampled channel is their
weighted sum (`sampleAt_eq`), which makes it a mean that lies between the least and the largest of
them (`sampleAt_between`).
-/

namespace Darkroom.Image

/-! ## One axis -/

/-- The places around a coordinate, with their weights. A coordinate at a place has that place with
weight one and the next one with weight zero. -/
noncomputable def axis (v : ℝ) : List (ℕ × ℝ) :=
  [(⌊v⌋₊, 1 - (v - ⌊v⌋₊)), (⌊v⌋₊ + 1, v - ⌊v⌋₊)]

/-- The places among the first `n`. At the end of an axis one place drops out, which has weight
zero. -/
noncomputable def axisInside (n : ℕ) (v : ℝ) : List (ℕ × ℝ) :=
  (axis v).filter (·.1 < n)

section Axis

variable {n : ℕ} {v : ℝ}

theorem clampCoordinate_real (v : ℝ) (n : ℕ) :
    clampCoordinate v n = max 0 (min ((n - 1 : ℕ) : ℝ) v) := by
  have hle : (Arith.ofNat 0 : ℝ) ≤ Arith.ofNat (n - 1) := by
    rw [Arith.ofNat_real, Arith.ofNat_real]
    exact_mod_cast Nat.zero_le (n - 1)
  have hclamp : clampCoordinate v n = Arith.clamp (Arith.ofNat 0) (Arith.ofNat (n - 1)) v := rfl
  rw [hclamp, Arith.clamp_real hle, Arith.ofNat_real, Arith.ofNat_real, Nat.cast_zero]

theorem clampCoordinate_mem (v : ℝ) (n : ℕ) :
    clampCoordinate v n ∈ Set.Icc (0 : ℝ) ((n - 1 : ℕ) : ℝ) := by
  rw [clampCoordinate_real]
  exact ⟨le_max_left _ _, max_le (Nat.cast_nonneg _) (min_le_left _ _)⟩

theorem clampCoordinate_of_mem (h : v ∈ Set.Icc (0 : ℝ) ((n - 1 : ℕ) : ℝ)) :
    clampCoordinate v n = v := by
  rw [clampCoordinate_real, min_eq_right h.2, max_eq_right h.1]

theorem toNat_truncate (hnonneg : 0 ≤ v) (hlt : v < 2 ^ 63) :
    (Arith.truncate v).toNat = ⌊v⌋₊ := by
  have hfloor : ⌊v⌋ < 2 ^ 63 := by
    rw [Int.floor_lt]
    exact_mod_cast hlt
  have hpos : 0 ≤ ⌊v⌋ := Int.floor_nonneg.mpr hnonneg
  have htruncate : Arith.truncate v = ⌊v⌋ := by
    show Exact.within (Exact.whole v) = ⌊v⌋
    rw [Exact.whole, if_pos hnonneg, Exact.within]
    omega
  rw [htruncate, Int.floor_toNat]

/-- A place behind the last one has no weight. -/
theorem sum_axisInside (hn : 0 < n) (h : v ∈ Set.Icc (0 : ℝ) ((n - 1 : ℕ) : ℝ)) :
    ((axisInside n v).map (·.2)).sum = 1 := by
  have hle : ⌊v⌋₊ ≤ n - 1 := Nat.floor_le_of_le h.2
  have hfirst : ⌊v⌋₊ < n := by omega
  rw [axisInside, axis, List.filter_cons_of_pos (by simpa using hfirst)]
  by_cases hsecond : ⌊v⌋₊ + 1 < n
  · rw [List.filter_cons_of_pos (by simpa using hsecond), List.filter_nil]
    simp
  · have hlast : ⌊v⌋₊ = n - 1 := by omega
    have hwhole : v = ⌊v⌋₊ := le_antisymm (hlast ▸ h.2) (Nat.floor_le h.1)
    rw [List.filter_cons_of_neg (by simpa using hsecond), List.filter_nil]
    simp only [List.map_cons, List.map_nil, List.sum_cons, List.sum_nil]
    linarith

theorem weight_axis_nonneg (hnonneg : 0 ≤ v) : ∀ p ∈ axis v, 0 ≤ p.2 := by
  intro p hp
  have hlow := Nat.floor_le hnonneg
  have hhigh := Nat.lt_floor_add_one v
  simp only [axis, List.mem_cons, List.not_mem_nil, or_false] at hp
  rcases hp with rfl | rfl <;> dsimp only <;> linarith

theorem axis_natCast (i : ℕ) : axis (i : ℝ) = [(i, 1), (i + 1, 0)] := by
  rw [axis, Nat.floor_natCast, sub_self, sub_zero]

end Axis

/-! ## The taps of a position -/

/-- The taps of a position that lie in an image. Only those count, and on the last column and row
the taps outside have weight zero, so that nothing of the sum is lost. -/
noncomputable def near (image : Image) (x y : ℝ) : List (ℕ × ℕ × ℝ) :=
  (taps (clampCoordinate x image.width.toNat) (clampCoordinate y image.height.toNat)).filter
    fun t => t.1 < image.width.toNat ∧ t.2.1 < image.height.toNat

/-- Places of both axes, each pair with the product of the weights. Sums over the pairs are products
of sums over the axes, which is how the weights are seen to sum to one. -/
noncomputable def pairs (us vs : List (ℕ × ℝ)) : List (ℕ × ℕ × ℝ) :=
  vs.flatMap fun v => us.map fun u => (u.1, v.1, u.2 * v.2)

theorem sum_pairs (us vs : List (ℕ × ℝ)) :
    ((pairs us vs).map (·.2.2)).sum = (us.map (·.2)).sum * (vs.map (·.2)).sum := by
  induction vs with
  | nil => simp [pairs]
  | cons v vs ih =>
    have hrow : ((us.map fun u => (u.1, v.1, u.2 * v.2)).map (·.2.2)).sum
        = (us.map (·.2)).sum * v.2 := by
      rw [List.map_map, ← List.sum_map_mul_right]
      rfl
    rw [pairs, List.flatMap_cons, List.map_append, List.sum_append, hrow, ← pairs, ih,
      List.map_cons, List.sum_cons, mul_add]

theorem filter_pairs (f g : ℕ → Bool) (us vs : List (ℕ × ℝ)) :
    (pairs us vs).filter (fun t => f t.1 && g t.2.1)
      = pairs (us.filter (f ·.1)) (vs.filter (g ·.1)) := by
  induction vs with
  | nil => rfl
  | cons v vs ih =>
    rw [pairs, List.flatMap_cons, List.filter_append, ← pairs, ih, List.filter_map]
    cases hg : g v.1 with
    | true => simp [pairs, hg, Function.comp_def]
    | false => simp [pairs, hg, Function.comp_def]

section Near

variable {image : Image} {x y : ℝ}

theorem taps_eq_pairs (hx : 0 ≤ x ∧ x < 2 ^ 63) (hy : 0 ≤ y ∧ y < 2 ^ 63) :
    taps x y = pairs (axis x) (axis y) := by
  unfold taps
  simp only [toNat_truncate hx.1 hx.2, toNat_truncate hy.1 hy.2, Arith.ofNat_real, Nat.cast_one]
  rfl

theorem lt_of_mem_axis {n : ℕ} (hn : n < 2 ^ 32) {v : ℝ}
    (h : v ∈ Set.Icc (0 : ℝ) ((n - 1 : ℕ) : ℝ)) : 0 ≤ v ∧ v < 2 ^ 63 := by
  refine ⟨h.1, lt_of_le_of_lt h.2 ?_⟩
  exact_mod_cast (by omega : n - 1 < 2 ^ 63)

/-- The taps in the image are the pairs of the places in it. -/
theorem near_eq (image : Image) (x y : ℝ) :
    image.near x y = pairs
      (axisInside image.width.toNat (clampCoordinate x image.width.toNat))
      (axisInside image.height.toNat (clampCoordinate y image.height.toNat)) := by
  have hx := lt_of_mem_axis image.width.toNat_lt (clampCoordinate_mem x image.width.toNat)
  have hy := lt_of_mem_axis image.height.toNat_lt (clampCoordinate_mem y image.height.toNat)
  rw [near, taps_eq_pairs hx hy]
  simp only [Bool.decide_and]
  exact filter_pairs (decide <| · < image.width.toNat) (decide <| · < image.height.toNat) _ _

theorem sum_near (hwidth : 0 < image.width.toNat) (hheight : 0 < image.height.toNat) (x y : ℝ) :
    ((image.near x y).map (·.2.2)).sum = 1 := by
  rw [near_eq, sum_pairs, sum_axisInside hwidth (clampCoordinate_mem x _),
    sum_axisInside hheight (clampCoordinate_mem y _), one_mul]

theorem weight_near_nonneg : ∀ t ∈ image.near x y, 0 ≤ t.2.2 := by
  intro t ht
  rw [near_eq, pairs, List.mem_flatMap] at ht
  obtain ⟨v, hv, ht⟩ := ht
  obtain ⟨u, hu, rfl⟩ := List.mem_map.mp ht
  exact mul_nonneg
    (weight_axis_nonneg (clampCoordinate_mem x _).1 u (List.mem_filter.mp hu).1)
    (weight_axis_nonneg (clampCoordinate_mem y _).1 v (List.mem_filter.mp hv).1)

/-! ## The color of a position -/

def tapValue (image : Image) (c : Component) (t : ℕ × ℕ × ℝ) : ℕ :=
  ((image.pixel t.1 t.2.1).component c).toNat

/-- The sum leaves out the taps outside of the image. -/
theorem tapSum_eq (image : Image) (c : Component) (ts : List (ℕ × ℕ × ℝ)) :
    image.tapSum (·.component c) ts
      = ((ts.filter fun t => t.1 < image.width.toNat ∧ t.2.1 < image.height.toNat).map
          fun t => t.2.2 * (image.tapValue c t : ℝ)).sum := by
  have hfold : ∀ s : ℝ, ts.foldl (fun (sum : ℝ) t =>
        if t.1 < image.width.toNat ∧ t.2.1 < image.height.toNat then
          sum + t.2.2 * (image.tapValue c t : ℝ) else sum) s
      = s + ((ts.filter fun t => t.1 < image.width.toNat ∧ t.2.1 < image.height.toNat).map
          fun t => t.2.2 * (image.tapValue c t : ℝ)).sum := by
    induction ts with
    | nil => simp
    | cons t ts ih =>
      intro s
      rw [List.foldl_cons, ih, List.filter_cons]
      by_cases h : t.1 < image.width.toNat ∧ t.2.1 < image.height.toNat
      · simp [h, add_assoc]
      · simp [h]
  have hzero := hfold 0
  rw [zero_add] at hzero
  unfold tapSum
  simp only [Arith.ofNat_real, Nat.cast_zero]
  exact hzero

theorem sampleAt_eq (hnull : image.isNull = false) (c : Component) :
    ((image.sampleAt x y).pixel.component c).toNat
      = roundClamp ((image.near x y).map fun t => t.2.2 * (image.tapValue c t : ℝ)).sum
          image.depth.maxValue := by
  have hsize : image.depth.maxValue < UInt16.size := by cases image.depth <;> decide
  have hlt : ∀ v : ℝ, roundClamp v image.depth.maxValue < UInt16.size := fun v =>
    lt_of_le_of_lt (Nat.min_le_right _ _) hsize
  rw [sampleAt, if_neg (by rw [hnull]; exact Bool.false_ne_true), near, ← tapSum_eq]
  cases c <;> exact UInt16.toNat_ofNat_of_lt' (hlt _)

section Between

variable (hwidth : 0 < image.width.toNat) (hheight : 0 < image.height.toNat)
  (hnull : image.isNull = false) (c : Component)
include hwidth hheight

theorem exists_mem_near (x y : ℝ) : ∃ t, t ∈ image.near x y := by
  refine List.exists_mem_of_ne_nil _ fun hnone => ?_
  have hsum := sum_near hwidth hheight x y
  rw [hnone] at hsum
  exact zero_ne_one hsum

theorem le_weighted {low : ℕ} (h : ∀ t ∈ image.near x y, low ≤ image.tapValue c t) :
    (low : ℝ) ≤ ((image.near x y).map fun t => t.2.2 * (image.tapValue c t : ℝ)).sum := by
  calc (low : ℝ) = ((image.near x y).map fun t => t.2.2 * (low : ℝ)).sum := by
        rw [List.sum_map_mul_right, sum_near hwidth hheight, one_mul]
    _ ≤ _ := List.sum_le_sum fun t ht =>
        mul_le_mul_of_nonneg_left (Nat.cast_le.mpr (h t ht)) (weight_near_nonneg t ht)

theorem weighted_le {high : ℕ} (h : ∀ t ∈ image.near x y, image.tapValue c t ≤ high) :
    ((image.near x y).map fun t => t.2.2 * (image.tapValue c t : ℝ)).sum ≤ (high : ℝ) := by
  calc _ ≤ ((image.near x y).map fun t => t.2.2 * (high : ℝ)).sum := List.sum_le_sum fun t ht =>
        mul_le_mul_of_nonneg_left (Nat.cast_le.mpr (h t ht)) (weight_near_nonneg t ht)
    _ = high := by rw [List.sum_map_mul_right, sum_near hwidth hheight, one_mul]

include hnull

/-- Some tap in the image is at most as bright as the sample. -/
theorem exists_tap_le (x y : ℝ) : ∃ t ∈ image.near x y,
    image.tapValue c t ≤ ((image.sampleAt x y).pixel.component c).toNat := by
  by_contra hnone
  push Not at hnone
  obtain ⟨t, ht⟩ := exists_mem_near hwidth hheight x y
  have hmax : image.tapValue c t ≤ image.depth.maxValue := image.fits_pixel t.1 t.2.1 c
  have hlow : ((((image.sampleAt x y).pixel.component c).toNat + 1 : ℕ) : ℝ) ≤ _ :=
    le_weighted hwidth hheight c hnone
  have hround := roundClamp_mono image.depth.maxValue hlow
  have hbound := hnone t ht
  simp only at hround
  rw [← sampleAt_eq hnull, roundClamp_natCast (by omega) (by cases image.depth <;> decide)] at hround
  omega

/-- Some tap in the image is at least as bright as the sample. -/
theorem exists_le_tap (x y : ℝ) : ∃ t ∈ image.near x y,
    ((image.sampleAt x y).pixel.component c).toNat ≤ image.tapValue c t := by
  by_contra hnone
  push Not at hnone
  obtain ⟨t, ht⟩ := exists_mem_near hwidth hheight x y
  have hmax : ((image.sampleAt x y).pixel.component c).toNat ≤ image.depth.maxValue := by
    rw [sampleAt_eq hnull]
    exact Nat.min_le_right _ _
  have hhigh : _ ≤ ((((image.sampleAt x y).pixel.component c).toNat - 1 : ℕ) : ℝ) :=
    weighted_le hwidth hheight c fun t ht => Nat.le_sub_one_of_lt (hnone t ht)
  have hround := roundClamp_mono image.depth.maxValue hhigh
  have hbound := hnone t ht
  simp only at hround
  rw [← sampleAt_eq hnull, roundClamp_natCast (by omega) (by cases image.depth <;> decide)] at hround
  omega

end Between

/-! ## Positions of pixels, and positions outside -/

theorem place_mem {k n : ℕ} (h : k < n) : (k : ℝ) ∈ Set.Icc (0 : ℝ) ((n - 1 : ℕ) : ℝ) :=
  ⟨Nat.cast_nonneg _, Nat.cast_le.mpr (Nat.le_sub_one_of_lt h)⟩

/-- At a pixel all weight is with the pixel. -/
theorem weighted_natCast {i j : ℕ} (hi : i < image.width.toNat) (hj : j < image.height.toNat)
    (c : Component) :
    ((image.near i j).map fun t => t.2.2 * (image.tapValue c t : ℝ)).sum
      = ((image.pixel i j).component c).toNat := by
  have hkept : ∀ {k n : ℕ}, k < n →
      axisInside n (k : ℝ) = (k, 1) :: [(k + 1, (0 : ℝ))].filter (·.1 < n) := fun h => by
    rw [axisInside, axis_natCast, List.filter_cons_of_pos (by simpa using h)]
  rw [near_eq, clampCoordinate_of_mem (place_mem hi), clampCoordinate_of_mem (place_mem hj),
    hkept hi, hkept hj, List.filter_singleton, List.filter_singleton]
  cases decide (i + 1 < image.width.toNat) <;> cases decide (j + 1 < image.height.toNat) <;>
    simp [pairs, tapValue]

theorem depth_sampleAt (hnull : image.isNull = false) (x y : ℝ) :
    (image.sampleAt x y).depth = image.depth := by
  rw [sampleAt, if_neg (by rw [hnull]; exact Bool.false_ne_true)]

theorem sampleAt_natCast (hnull : image.isNull = false) {i j : ℕ} (hi : i < image.width.toNat)
    (hj : j < image.height.toNat) : image.sampleAt (i : ℝ) (j : ℝ) = image.color i j := by
  have hdepth := depth_sampleAt hnull (i : ℝ) (j : ℝ)
  have hpixel : (image.sampleAt (i : ℝ) (j : ℝ)).pixel = image.pixel i j :=
    Pixel.ext_component fun c => UInt16.toNat_inj.mp (by
      rw [sampleAt_eq hnull, weighted_natCast hi hj]
      exact roundClamp_natCast (image.fits_pixel i j c) (by cases image.depth <;> decide))
  rw [color, ← hpixel, ← hdepth]

/-- The rectangle between the corner pixels of an image. Positions outside of it are sampled like
the point of it that is closest. -/
def area (image : Image) : Set (ℝ × ℝ) :=
  Set.Icc 0 ((image.width.toNat - 1 : ℕ) : ℝ) ×ˢ Set.Icc 0 ((image.height.toNat - 1 : ℕ) : ℝ)

/-- The point `p` of an image lies closest to the position `(x, y)`. Distances are squared, which
does not change which point is the closest. -/
def Closest (image : Image) (x y : ℝ) (p : ℝ × ℝ) : Prop :=
  p ∈ image.area ∧ IsMinOn (fun q : ℝ × ℝ => (x - q.1) ^ 2 + (y - q.2) ^ 2) image.area p

/-- Of an interval the clamped coordinate is closest, by as much as a point lies off from it. -/
theorem sq_clampCoordinate_le (n : ℕ) (v : ℝ) {q : ℝ} (hq : q ∈ Set.Icc (0 : ℝ) ((n - 1 : ℕ) : ℝ)) :
    (v - clampCoordinate v n) ^ 2 + (q - clampCoordinate v n) ^ 2 ≤ (v - q) ^ 2 := by
  obtain ⟨hlow, hhigh⟩ := hq
  -- The three cases: before the interval, behind it, and in it.
  have hsides : (q - clampCoordinate v n) * (v - clampCoordinate v n) ≤ 0 := by
    rw [clampCoordinate_real]
    rcases le_total v 0 with hv | hv
    · rw [max_eq_left ((min_le_right _ _).trans hv)]
      nlinarith
    rcases le_total v ((n - 1 : ℕ) : ℝ) with hv' | hv'
    · rw [min_eq_right hv', max_eq_right hv, sub_self, mul_zero]
    · rw [min_eq_left hv', max_eq_right (Nat.cast_nonneg _)]
      nlinarith
  nlinarith

theorem closest_iff (image : Image) (x y : ℝ) (p : ℝ × ℝ) : image.Closest x y p
    ↔ p = (clampCoordinate x image.width.toNat, clampCoordinate y image.height.toNat) := by
  have hmem : (clampCoordinate x image.width.toNat, clampCoordinate y image.height.toNat)
      ∈ image.area := ⟨clampCoordinate_mem x _, clampCoordinate_mem y _⟩
  constructor
  · rintro ⟨⟨hx, hy⟩, hmin⟩
    have hle := isMinOn_iff.mp hmin _ hmem
    have hfst := sq_clampCoordinate_le image.width.toNat x hx
    have hsnd := sq_clampCoordinate_le image.height.toNat y hy
    have hfst0 : (p.1 - clampCoordinate x image.width.toNat) ^ 2 = 0 := by nlinarith
    have hsnd0 : (p.2 - clampCoordinate y image.height.toNat) ^ 2 = 0 := by nlinarith
    exact Prod.ext (sub_eq_zero.mp (pow_eq_zero_iff two_ne_zero |>.mp hfst0))
      (sub_eq_zero.mp (pow_eq_zero_iff two_ne_zero |>.mp hsnd0))
  · rintro rfl
    refine ⟨hmem, isMinOn_iff.mpr fun q hq => ?_⟩
    have hfst := sq_clampCoordinate_le image.width.toNat x hq.1
    have hsnd := sq_clampCoordinate_le image.height.toNat y hq.2
    nlinarith [sq_nonneg (q.1 - clampCoordinate x image.width.toNat),
      sq_nonneg (q.2 - clampCoordinate y image.height.toNat)]

theorem sampleAt_clampCoordinate (image : Image) (x y : ℝ) :
    image.sampleAt (clampCoordinate x image.width.toNat) (clampCoordinate y image.height.toNat)
      = image.sampleAt x y := by
  unfold sampleAt
  rw [clampCoordinate_of_mem (clampCoordinate_mem x _),
    clampCoordinate_of_mem (clampCoordinate_mem y _)]

end Near

/-! ## No number for a coordinate -/

theorem not_ofNat_lt_zero {n : ℕ} (hn : n < 2 ^ 53) : ¬Float.ofNat n < Float.ofNat 0 := by
  rcases Nat.eq_zero_or_pos n with rfl | hpos
  · exact Decimal.not_zero_lt_zero
  · obtain ⟨m, q, hc, heq, -, -⟩ := Decimal.exactly_ofNat hpos hn
    rw [heq, Decimal.lt_iff_unpack, Decimal.ofNat_zero, Decimal.ofCanonical, Decimal.unpack_pack hc,
      Decimal.unpack_zero]
    exact Bool.false_ne_true

/-- A coordinate that is no number is that of the first column or row. -/
theorem clampCoordinate_of_isNaN {n : ℕ} (hn : n < 2 ^ 53) {v : Float} (h : v.isNaN) :
    clampCoordinate v n = clampCoordinate 0 n := by
  have hzero : clampCoordinate (0 : Float) n
      = Arith.clamp (Float.ofNat 0) (Float.ofNat (n - 1)) (Float.ofNat 0) := rfl
  have hlast : ¬Float.ofNat (n - 1) < Float.ofNat 0 := not_ofNat_lt_zero (by omega)
  have hclamp : Arith.clamp (Float.ofNat 0) (Float.ofNat (n - 1)) (Float.ofNat 0)
      = Float.ofNat 0 := by
    show (if decide (Float.ofNat 0 < Float.ofNat 0) = true then _
      else if decide (Float.ofNat (n - 1) < Float.ofNat 0) = true then _ else _) = _
    rw [if_neg (by simpa using Decimal.not_zero_lt_zero), if_neg (by simpa using hlast)]
  rw [hzero, hclamp, clampCoordinate]
  exact if_pos h

/-! ## Sampling -/

/-- A bilinear sample: the taps are the pairs of the places around the two coordinates, each with the
product of its weights along the axes, and what lies outside of the image has dropped out of them. A
channel is the weighted sum over the taps, which needs rounding and nothing else. As the weights are not
negative and sum to one, this is a mean, so some tap is no brighter and some tap is no darker. -/
structure Bilinear (image : Image) (x y : ℝ) : Prop where
  near_eq : image.near x y = pairs
    (axisInside image.width.toNat (clampCoordinate x image.width.toNat))
    (axisInside image.height.toNat (clampCoordinate y image.height.toNat))
  weight_nonneg : ∀ t ∈ image.near x y, 0 ≤ t.2.2
  sum_weights : ((image.near x y).map (·.2.2)).sum = 1
  depth_eq : (image.sampleAt x y).depth = image.depth
  channel_eq : ∀ c : Component, ((image.sampleAt x y).pixel.component c).toNat
    = roundClamp ((image.near x y).map fun t => t.2.2 * (image.tapValue c t : ℝ)).sum
        image.depth.maxValue
  channel_nearest : ∀ c : Component, (((image.sampleAt x y).pixel.component c).toNat : ℤ)
    = Exact.nearest ((image.near x y).map fun t => t.2.2 * (image.tapValue c t : ℝ)).sum
  exists_tap_le : ∀ c : Component, ∃ t ∈ image.near x y,
    image.tapValue c t ≤ ((image.sampleAt x y).pixel.component c).toNat
  exists_le_tap : ∀ c : Component, ∃ t ∈ image.near x y,
    ((image.sampleAt x y).pixel.component c).toNat ≤ image.tapValue c t

theorem WellFormed.bilinear {image : Image} (h : image.WellFormed) (hnull : image.isNull = false)
    (x y : ℝ) : image.Bilinear x y where
  near_eq := near_eq image x y
  weight_nonneg := weight_near_nonneg
  sum_weights := sum_near (h.width_pos hnull) (h.height_pos hnull) x y
  depth_eq := depth_sampleAt hnull x y
  channel_eq := sampleAt_eq hnull
  channel_nearest c := by
    have hlow : (0 : ℝ) ≤ ((image.near x y).map fun t => t.2.2 * (image.tapValue c t : ℝ)).sum := by
      exact_mod_cast le_weighted (h.width_pos hnull) (h.height_pos hnull) c fun _ _ => Nat.zero_le _
    have hhigh := weighted_le (x := x) (y := y) (h.width_pos hnull) (h.height_pos hnull) c
      fun t _ => image.fits_pixel t.1 t.2.1 c
    rw [sampleAt_eq hnull, roundClamp_of_mem ⟨hlow, hhigh⟩ (by cases image.depth <;> decide)]
  exists_tap_le c := exists_tap_le (h.width_pos hnull) (h.height_pos hnull) hnull c x y
  exists_le_tap c := exists_le_tap (h.width_pos hnull) (h.height_pos hnull) hnull c x y

/-- A color between pixels, with weights taken exactly, is a mean of the taps in the image, also at the
far edges, where the other taps are missing. At a pixel it is the color of the pixel, and at a position
outside it is the color at the one point of the image that is closest. A coordinate that is no number
counts as zero. -/
theorem sampleAt_between {image : Image} (h : image.WellFormed) (hnull : image.isNull = false) :
    (∀ x y : ℝ, image.Bilinear x y)
      ∧ (∀ i < image.width.toNat, ∀ j < image.height.toNat,
        image.sampleAt (i : ℝ) (j : ℝ) = image.color i j)
      ∧ (∀ x y : ℝ, (∃! p, image.Closest x y p)
        ∧ ∀ p, image.Closest x y p → image.sampleAt x y = image.sampleAt p.1 p.2)
      ∧ ∀ x y : Float, image.sampleAt x y
        = image.sampleAt (if x.isNaN then 0 else x) (if y.isNaN then 0 else y) := by
  refine ⟨h.bilinear hnull, fun i hi j hj => sampleAt_natCast hnull hi hj,
    fun x y => ⟨?_, fun p hp => ?_⟩, fun x y => ?_⟩
  · simp only [closest_iff]
    exact existsUnique_eq
  · rw [closest_iff] at hp
    rw [hp, sampleAt_clampCoordinate]
  · have hcoordinate : ∀ {n : ℕ} (v : Float), n < 2 ^ 32 →
        clampCoordinate v n = clampCoordinate (if v.isNaN then 0 else v) n := by
      intro n v hn
      split
      · rename_i hnan
        exact clampCoordinate_of_isNaN (by omega) hnan
      · rfl
    unfold sampleAt
    rw [hcoordinate x image.width.toNat_lt, hcoordinate y image.height.toNat_lt]

def column : Image :=
  ⟨1, 2, .eight, true, #[10, 20, 30, 255, 200, 100, 50, 0]⟩

/-- A quarter of the way from the first pixel of the column to the second one; there is nothing beside
the column to mix in. -/
theorem near_column : column.near 0 (1 / 4) = [(0, 0, 3 / 4), (0, 1, 1 / 4)] := by
  have hwidth : column.width.toNat = 1 := rfl
  have hheight : column.height.toNat = 2 := rfl
  have hfloor : ⌊(1 / 4 : ℝ)⌋₊ = 0 := Nat.floor_eq_zero.mpr (by norm_num)
  have hx : clampCoordinate (0 : ℝ) 1 = ((0 : ℕ) : ℝ) := by
    rw [Nat.cast_zero]
    exact clampCoordinate_of_mem ⟨le_rfl, Nat.cast_nonneg _⟩
  have hy : clampCoordinate (1 / 4 : ℝ) 2 = 1 / 4 :=
    clampCoordinate_of_mem ⟨by norm_num, by norm_num⟩
  rw [near_eq, hwidth, hheight, hx, hy, axisInside, axis_natCast, axisInside, axis, hfloor]
  norm_num [pairs]

/-- Between the two pixels of a column, at one of them, and far beside both. -/
theorem sampleAt_between_column :
    column.WellFormed ∧ column.isNull = false
      ∧ column.sampleAt (0 : ℝ) (1 / 4 : ℝ) = ⟨⟨58, 40, 35, 191⟩, .eight⟩
      ∧ column.sampleAt ((0 : ℕ) : ℝ) ((1 : ℕ) : ℝ) = ⟨⟨200, 100, 50, 0⟩, .eight⟩
      ∧ column.sampleAt (7 : ℝ) (-3 : ℝ) = ⟨⟨10, 20, 30, 255⟩, .eight⟩ := by
  have hwf : column.WellFormed := .inr ⟨by decide, by decide, by decide⟩
  obtain ⟨hbilinear, hpixel, hclosest, -⟩ := sampleAt_between hwf rfl
  have hmixed : ∀ (c : Component) (first second mixed : ℕ),
      column.tapValue c (0, 0, 3 / 4) = first → column.tapValue c (0, 1, 1 / 4) = second →
      0 < mixed → (mixed : ℝ) - 1 / 2 ≤ 3 / 4 * first + 1 / 4 * second →
      3 / 4 * first + 1 / 4 * second < (mixed : ℝ) + 1 / 2 →
        ((column.sampleAt (0 : ℝ) (1 / 4 : ℝ)).pixel.component c).toNat = mixed := by
    intro c first second mixed hfirst hsecond hpos hlow hhigh
    have hchannel := (hbilinear 0 (1 / 4)).channel_nearest c
    rw [near_column, List.map_cons, List.map_cons, List.map_nil, List.sum_cons, List.sum_cons,
      List.sum_nil, add_zero, hfirst, hsecond] at hchannel
    rw [Exact.nearest_eq_of_pos (Int.natCast_pos.mpr hpos) (mod_cast hlow) (mod_cast hhigh)] at hchannel
    exact Int.natCast_inj.mp hchannel
  have hcolor : (column.sampleAt (0 : ℝ) (1 / 4 : ℝ)).pixel = ⟨58, 40, 35, 191⟩ := by
    refine Pixel.ext_component fun c => UInt16.toNat_inj.mp ?_
    cases c with
    | red => exact hmixed .red 30 50 35 rfl rfl (by decide) (by norm_num) (by norm_num)
    | green => exact hmixed .green 20 100 40 rfl rfl (by decide) (by norm_num) (by norm_num)
    | blue => exact hmixed .blue 10 200 58 rfl rfl (by decide) (by norm_num) (by norm_num)
    | alpha => exact hmixed .alpha 255 0 191 rfl rfl (by decide) (by norm_num) (by norm_num)
  have hdepth := (hbilinear 0 (1 / 4)).depth_eq
  have hcorner : column.Closest 7 (-3) (((0 : ℕ) : ℝ), ((0 : ℕ) : ℝ)) := by
    rw [closest_iff, clampCoordinate_real, clampCoordinate_real]
    norm_num [column]
  refine ⟨hwf, rfl, ?_, hpixel 0 (by decide) 1 (by decide), ?_⟩
  · rw [← hcolor, ← show column.depth = .eight from rfl, ← hdepth]
  · rw [(hclosest 7 (-3)).2 _ hcorner, hpixel 0 (by decide) 0 (by decide)]
    rfl

end Darkroom.Image
