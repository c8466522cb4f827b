import Darkroom.Proofs.Repair.Separate
import Mathlib.Algebra.Order.Floor.Semifield
import Mathlib.Algebra.BigOperators.Ring.Finset
import Mathlib.Algebra.Order.BigOperators.Group.Finset
import Mathlib.Data.Rat.Floor
import Mathlib.Tactic.FieldSimp
import Mathlib.Tactic.Linarith
import Mathlib.Tactic.NormNum
import Mathlib.Tactic.Positivity
import Mathlib.Tactic.Ring

/-!
# The mean of a ring

The ring of a rectangle inside an image is what touches it: the pixels of the image that share an edge
with one of its pixels and are not among them (`mem_ringPlaces`). It meets each of them once
(`nodup_ringPlaces`), also where the rectangle lies at the border, where both sides of it touch the same
pixels or where it has a single column. So the repair by a mean sets each color to the mean over those
pixels, taken exactly and rounded half up (`average_eq_mean`).
-/

namespace Darkroom.Repair

open Filter.Checked (ringAt)

/-! ## Regions and their borders -/

def places (d : Dimensions) : Finset (ℕ × ℕ) :=
  Finset.range d.width.toNat ×ˢ Finset.range d.height.toNat

/-- The pixels of an image that a rectangle covers. A rectangle may reach beyond the image on any
side; what is repaired is what it has in common with it. -/
def region (d : Dimensions) (r : Rect) : Finset (ℕ × ℕ) :=
  (places d).filter fun p => r.Covers p.1 p.2

/-- Whether two pixels share an edge. -/
def Touch (p q : ℕ × ℕ) : Prop :=
  (p.1 = q.1 ∧ (p.2 + 1 = q.2 ∨ q.2 + 1 = p.2)) ∨ (p.2 = q.2 ∧ (p.1 + 1 = q.1 ∨ q.1 + 1 = p.1))

instance (p q : ℕ × ℕ) : Decidable (Touch p q) :=
  inferInstanceAs (Decidable ((_ ∧ (_ ∨ _)) ∨ (_ ∧ (_ ∨ _))))

/-- The pixels of an image beside a region of it, edge to edge. Corners do not touch, so the ring of
a rectangle has none of the four diagonal neighbours. -/
def border (d : Dimensions) (region : Finset (ℕ × ℕ)) : Finset (ℕ × ℕ) :=
  (places d).filter fun p => p ∉ region ∧ ∃ q ∈ region, Touch p q

variable {d : Dimensions} {r : Rect} {image : Image} {x y : ℕ} {s : Spot}

theorem mem_places : (x, y) ∈ places d ↔ x < d.width.toNat ∧ y < d.height.toNat := by
  rw [places, Finset.mem_product, Finset.mem_range, Finset.mem_range]

theorem mem_region (h : r.IsClip d) : (x, y) ∈ region d r ↔ r.Covers x y := by
  rw [region, Finset.mem_filter, mem_places, and_iff_right_iff_imp]
  intro hcovers
  obtain ⟨⟨-, hx⟩, -, hy⟩ := h.holds_of_covers hcovers
  exact ⟨Int.ofNat_lt.mp hx, Int.ofNat_lt.mp hy⟩

/-! ## The places of a ring -/

theorem mem_ringAt {i j : ℤ} :
    (i, j) ∈ ringAt s
      ↔ ((s.x ≤ i ∧ i < s.x + s.width) ∧ (j = s.y - 1 ∨ j = s.y + s.height))
        ∨ ((s.y ≤ j ∧ j < s.y + s.height) ∧ (i = s.x - 1 ∨ i = s.x + s.width)) := by
  simp only [ringAt, List.mem_append, List.mem_flatMap, List.mem_range, List.mem_cons,
    List.not_mem_nil, or_false, Prod.mk.injEq]
  constructor
  · rintro (⟨k, hk, hplace⟩ | ⟨k, hk, hplace⟩) <;> omega
  · rintro (⟨hi, hj⟩ | ⟨hj, hi⟩)
    · exact Or.inl ⟨(i - s.x).toNat, by omega, by omega⟩
    · exact Or.inr ⟨(j - s.y).toNat, by omega, by omega⟩

theorem nodup_ringAt (hwidth : 0 < s.width) (hheight : 0 < s.height) : (ringAt s).Nodup := by
  have hside : ∀ (n : ℕ) (f g : ℕ → ℤ × ℤ), (∀ i j, f i = f j → i = j) →
      (∀ i j, g i = g j → i = j) → (∀ i j, f i ≠ g j) →
      ((List.range n).flatMap fun i => [f i, g i]).Nodup := by
    intro n f g hf hg hfg
    refine List.nodup_flatMap.mpr ⟨fun i _ => by simp [hfg], ?_⟩
    refine List.nodup_range.imp fun {i j} hne => ?_
    simp only [Function.onFun, List.disjoint_cons_left, List.mem_cons, List.not_mem_nil, or_false,
      List.disjoint_nil_left, and_true, not_or]
    exact ⟨⟨fun h => hne (hf i j h), hfg i j⟩, Ne.symm (hfg j i), fun h => hne (hg i j h)⟩
  rw [ringAt]
  refine List.nodup_append'.mpr ⟨hside _ _ _ ?_ ?_ ?_, hside _ _ _ ?_ ?_ ?_, ?_⟩
  all_goals try (intro i j; simp only [ne_eq, Prod.mk.injEq]; omega)
  rintro ⟨i, j⟩ habove hbeside
  simp only [List.mem_flatMap, List.mem_range, List.mem_cons, List.not_mem_nil, or_false,
    Prod.mk.injEq] at habove hbeside
  obtain ⟨k, hk, hplace⟩ := habove
  obtain ⟨l, hl, hplace'⟩ := hbeside
  omega

def place? (d : Dimensions) (p : ℤ × ℤ) : Option (ℕ × ℕ) :=
  if d.Holds p.1 p.2 then some (p.1.toNat, p.2.toNat) else none

/-- The places of an image in the ring of a spot. The list has each of them once, so its mean is the
mean over the border as a set. -/
def ringPlaces (d : Dimensions) (s : Spot) : List (ℕ × ℕ) :=
  (ringAt s).filterMap (place? d)

theorem place?_eq_some {p : ℤ × ℤ} :
    place? d p = some (x, y) ↔ (x, y) ∈ places d ∧ p = ((x : ℤ), (y : ℤ)) := by
  obtain ⟨i, j⟩ := p
  rw [place?, mem_places, Prod.mk.injEq]
  split
  · rename_i hholds
    rw [Dimensions.Holds] at hholds
    rw [Option.some.injEq, Prod.mk.injEq]
    omega
  · rename_i hholds
    rw [Dimensions.Holds] at hholds
    refine iff_of_false (fun h => Option.some_ne_none _ h.symm) ?_
    dsimp only at hholds
    omega

theorem ring_eq_map (image : Image) (s : Spot) :
    ring image s = (ringPlaces image.dimensions s).map fun q => image.pixel q.1 q.2 := by
  rw [ring_eq_filterMap, ringPlaces, List.map_filterMap]
  refine List.filterMap_congr fun p _ => ?_
  have hholds : image.dimensions.Holds p.1 p.2
      ↔ 0 ≤ p.1 ∧ p.1 < image.width.toNat ∧ 0 ≤ p.2 ∧ p.2 < image.height.toNat := by
    rw [Dimensions.Holds, and_assoc]
    rfl
  rw [pixel?, place?]
  by_cases h : image.dimensions.Holds p.1 p.2
  · rw [if_pos h, if_pos (hholds.mp h)]
    rfl
  · rw [if_neg h, if_neg (fun h' => h (hholds.mpr h'))]
    rfl

theorem nodup_ringPlaces (hwidth : 0 < s.width) (hheight : 0 < s.height) (d : Dimensions) :
    (ringPlaces d s).Nodup := by
  refine (nodup_ringAt hwidth hheight).filterMap ?_
  rintro p p' ⟨x, y⟩ hp hp'
  rw [Option.mem_def, place?_eq_some] at hp hp'
  rw [hp.2, hp'.2]

/-- The ring of the spot of a rectangle is the border of its region. -/
theorem mem_ringPlaces (h : r.IsClip d) :
    (x, y) ∈ ringPlaces d (InPlace.spotOf r) ↔ (x, y) ∈ border d (region d r) := by
  obtain ⟨⟨hsx, hsy⟩, hsw, hsh⟩ := InPlace.spotOf_eq h
  have hring : (x, y) ∈ ringPlaces d (InPlace.spotOf r)
      ↔ (x, y) ∈ places d ∧ ((x : ℤ), (y : ℤ)) ∈ ringAt (InPlace.spotOf r) := by
    simp only [ringPlaces, List.mem_filterMap, place?_eq_some]
    constructor
    · rintro ⟨p, hp, hplace, rfl⟩
      exact ⟨hplace, hp⟩
    · rintro ⟨hplace, hp⟩
      exact ⟨_, hp, hplace, rfl⟩
  rw [hring, border, Finset.mem_filter, mem_region h, mem_ringAt]
  refine and_congr_right fun _ => ?_
  have hwidth := h.width
  have hheight := h.height
  constructor
  · intro hplace
    refine ⟨?_, ?_⟩
    · rw [Rect.Covers]
      omega
    -- Back over the edge, in one of the four directions.
    · have hback : ∀ a b : ℕ, r.Covers a b → Touch (x, y) (a, b) →
          ∃ q ∈ region d r, Touch (x, y) q :=
        fun a b hcovers htouch => ⟨(a, b), (mem_region h).mpr hcovers, htouch⟩
      rcases hplace with ⟨hcolumn, habove | hbelow⟩ | ⟨hrow, hleft | hright⟩
      · exact hback x (y + 1) (by rw [Rect.Covers]; omega) (Or.inl ⟨rfl, Or.inl rfl⟩)
      · exact hback x (y - 1) (by rw [Rect.Covers]; omega)
          (Or.inl ⟨rfl, Or.inr (by dsimp only; omega)⟩)
      · exact hback (x + 1) y (by rw [Rect.Covers]; omega) (Or.inr ⟨rfl, Or.inl rfl⟩)
      · exact hback (x - 1) y (by rw [Rect.Covers]; omega)
          (Or.inr ⟨rfl, Or.inr (by dsimp only; omega)⟩)
  · rintro ⟨hout, ⟨a, b⟩, hq, htouch⟩
    rw [mem_region h, Rect.Covers] at hq
    rw [Rect.Covers] at hout
    rw [Touch] at htouch
    omega

theorem toFinset_ringPlaces (h : r.IsClip d) :
    (ringPlaces d (InPlace.spotOf r)).toFinset = border d (region d r) := by
  ext ⟨x, y⟩
  rw [List.mem_toFinset, mem_ringPlaces h]

/-! ## Means over the border -/

def total (image : Image) (color : Pixel → UInt16) (pixels : Finset (ℕ × ℕ)) : ℕ :=
  ∑ q ∈ pixels, (color (image.pixel q.1 q.2)).toNat

theorem ring_sums (h : r.IsClip image.dimensions) (color : Pixel → UInt16) :
    (ring image (InPlace.spotOf r)).length
        = (border image.dimensions (region image.dimensions r)).card
      ∧ (ring image (InPlace.spotOf r)).foldl (fun sum p => sum + (color p).toNat) 0
        = total image color (border image.dimensions (region image.dimensions r)) := by
  obtain ⟨-, hsw, hsh⟩ := InPlace.spotOf_eq h
  have hwidth := h.width
  have hheight := h.height
  have hnodup := nodup_ringPlaces (s := InPlace.spotOf r) (by omega) (by omega) image.dimensions
  rw [total, ring_eq_map, ← toFinset_ringPlaces h, List.length_map,
    List.toFinset_card_of_nodup hnodup, List.sum_toFinset _ hnodup, List.sum_eq_foldl,
    List.foldl_map, List.foldl_map]
  exact ⟨rfl, rfl⟩

/-- A rounded mean of values up to `top` is not more than `top`. -/
theorem rounded_le {sum n top : ℕ} (hn : 0 < n) (h : sum ≤ n * top) :
    (2 * sum + n) / (2 * n) ≤ top := by
  refine Nat.le_of_lt_succ ((Nat.div_lt_iff_lt_mul (by omega)).mpr ?_)
  calc 2 * sum + n < 2 * (n * top) + 2 * n := by omega
    _ = (top + 1) * (2 * n) := by ring

/-- Rounding half up, as a floor. -/
theorem rounded_eq_floor (sum : ℕ) {n : ℕ} (hn : 0 < n) :
    (2 * sum + n) / (2 * n) = ⌊(sum : ℚ) / n + 1 / 2⌋₊ := by
  have hpos : (n : ℚ) ≠ 0 := Nat.cast_ne_zero.mpr hn.ne'
  have hquotient : (sum : ℚ) / n + 1 / 2 = ((2 * sum + n : ℕ) : ℚ) / ((2 * n : ℕ) : ℚ) := by
    push_cast
    field_simp
  rw [hquotient, Nat.floor_div_eq_div]

theorem total_le {color : Pixel → UInt16}
    (hcolor : ∀ p : Pixel, p.Fits image.depth → (color p).toNat ≤ image.depth.maxValue)
    (pixels : Finset (ℕ × ℕ)) : total image color pixels ≤ pixels.card * image.depth.maxValue :=
  Finset.sum_le_card_nsmul _ _ _ fun q _ => hcolor _ (image.fits_pixel q.1 q.2)

/-- The mean of a color over the ring is the mean over the border, rounded half up. -/
theorem toNat_mean (h : r.IsClip image.dimensions) {color : Pixel → UInt16}
    (hcolor : ∀ p : Pixel, p.Fits image.depth → (color p).toNat ≤ image.depth.maxValue)
    (hborder : (border image.dimensions (region image.dimensions r)).Nonempty) :
    (mean color (ring image (InPlace.spotOf r))).toNat
        = ⌊(total image color (border image.dimensions (region image.dimensions r)) : ℚ)
            / (border image.dimensions (region image.dimensions r)).card + 1 / 2⌋₊
      ∧ (mean color (ring image (InPlace.spotOf r))).toNat ≤ image.depth.maxValue := by
  obtain ⟨hlength, hsum⟩ := ring_sums h color
  have hcard := hborder.card_pos
  have hle := rounded_le hcard (total_le hcolor _)
  have hmean : (mean color (ring image (InPlace.spotOf r))).toNat
      = (2 * total image color (border image.dimensions (region image.dimensions r))
          + (border image.dimensions (region image.dimensions r)).card)
        / (2 * (border image.dimensions (region image.dimensions r)).card) := by
    rw [mean, hlength, hsum]
    exact UInt16.toNat_ofNat_of_lt' (lt_of_le_of_lt hle (Depth.maxValue_lt _))
  rw [← rounded_eq_floor _ hcard, hmean]
  exact ⟨rfl, hle⟩

/-! ## Repairs by a mean -/

theorem read_le {depth : Depth} {p : Pixel} (h : p.Fits depth) (c : Primary) :
    (c.read p).toNat ≤ depth.maxValue := by
  cases c with
  | blue => exact h .blue
  | green => exact h .green
  | red => exact h .red

namespace InPlace

/-- What a mean makes of a pixel: it sets the colors to the means over the ring, if there is one. -/
theorem remade_average (h : r.IsClip image.dimensions) (direction : Direction) (old : Pixel) :
    (border image.dimensions (region image.dimensions r) = ∅ →
        remade .doubles .average direction image r x y old = old)
      ∧ ((border image.dimensions (region image.dimensions r)).Nonempty → ∀ c : Primary,
        c.read (remade .doubles .average direction image r x y old)
          = mean (fun p => c.read p) (Repair.ring image (spotOf r))) := by
  have hlength := (ring_sums h Pixel.red).1
  have hring : (ring image r).isEmpty
      ↔ border image.dimensions (region image.dimensions r) = ∅ := by
    rw [ring_eq h, List.isEmpty_iff_length_eq_zero, hlength, Finset.card_eq_zero]
  have hremade : remade .doubles .average direction image r x y old
      = if (ring image r).isEmpty then old
        else
          { old with
            red := Rule.doubles.mean ((ring image r).map Pixel.red)
            green := Rule.doubles.mean ((ring image r).map Pixel.green)
            blue := Rule.doubles.mean ((ring image r).map Pixel.blue) } := rfl
  rw [hremade]
  constructor
  · intro hempty
    rw [if_pos (hring.mpr hempty)]
  · intro hborder c
    rw [if_neg (fun hempty => hborder.ne_empty (hring.mp hempty)), ring_eq h]
    cases c <;> exact mean_doubles _ _

/-- The new colors of a rectangle with a border. -/
theorem read_average (h : image.WellFormed) (direction : Direction) {rect : Rect}
    (hcovers : (rect.clipped image.dimensions).Covers x y)
    (hborder : (border image.dimensions
      (region image.dimensions (rect.clipped image.dimensions))).Nonempty) (c : Primary) :
    c.read ((oneSpot .doubles .average direction image rect).pixel x y)
      = mean (fun p => c.read p) (Repair.ring image (spotOf (rect.clipped image.dimensions))) := by
  have hclip := isClip_of_covers hcovers
  obtain ⟨⟨-, hx⟩, -, hy⟩ := hclip.holds_of_covers hcovers
  have hle := (toNat_mean hclip (fun p hp => read_le hp c) hborder).2
  rw [pixel_oneSpot _ _ _ h rect (Int.ofNat_lt.mp hx) (Int.ofNat_lt.mp hy), if_pos hcovers,
    read_stored, (remade_average hclip direction _).2 hborder c, Depth.stored_of_le hle]

theorem oneSpot_average_of_border_empty (h : image.WellFormed) (direction : Direction) (rect : Rect)
    (hborder : border image.dimensions
      (region image.dimensions (rect.clipped image.dimensions)) = ∅) :
    oneSpot .doubles .average direction image rect = image := by
  rw [oneSpot_eq_repainted _ _ _ h]
  refine h.repainted_eq_self fun x _ y _ hcovers => ?_
  rw [(remade_average (isClip_of_covers hcovers) direction _).1 hborder]
  exact image.stored_pixel x y

end InPlace

theorem region_clipped (d : Dimensions) (rect : Rect) :
    (d.IsSigned → region d (rect.clipped d) = region d rect)
      ∧ (¬d.IsSigned → region d (rect.clipped d) = ∅) := by
  constructor
  · intro hsigned
    refine Finset.filter_congr fun q hq => ?_
    rw [Rect.covers_clipped hsigned, and_iff_left_iff_imp]
    intro _
    obtain ⟨hx, hy⟩ := mem_places.mp hq
    rw [Dimensions.Holds]
    omega
  · intro hwrapped
    refine Finset.filter_eq_empty_iff.mpr fun q _ hcovers => ?_
    exact hwrapped (InPlace.isClip_of_covers hcovers).signed

theorem border_empty (d : Dimensions) : border d ∅ = ∅ :=
  Finset.filter_eq_empty_iff.mpr fun _ _ h =>
    have ⟨_, hq, _⟩ := h.2
    Finset.notMem_empty _ hq

def hotRow : Image :=
  .ofPixels ⟨3, 1⟩ .eight true fun x _ =>
    if x = 0 then ⟨4, 10, 10, 255⟩ else if x = 1 then ⟨250, 250, 250, 77⟩ else ⟨4, 13, 12, 255⟩

end Darkroom.Repair
