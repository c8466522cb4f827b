import Darkroom.Filter.Checked
import Darkroom.Proofs.Intersection
import Darkroom.Repair.InPlace
import Mathlib.Data.List.Basic

/-!
# Where a repair reads

What is repaired is the part of a rectangle inside an image. Its neighbours lie beside it, never in it,
and not farther from it than the order of the polynomial (`outside_near`); the ring of the mean lies
one step beside it (`ring_eq`). Coordinates that wrap are coordinates outside the image as well, so a
position shows what it shows on integers without bounds (`pixel?_wrapped`).
-/

namespace Darkroom

namespace Rect

def clipped (r : Rect) (d : Dimensions) : Rect :=
  r.intersected (ofDimensions d)

/-- Whether a rectangle grown by `n` pixels on every side covers a column and a row. An empty one
does not grow: its spot is left out, so it reaches nothing. -/
def GrownCovers (n : Nat) (r : Rect) (i j : Int) : Prop :=
  r.isEmpty = false
    ∧ (r.x.toInt - n ≤ i ∧ i < r.x.toInt + r.width.toInt + n)
    ∧ r.y.toInt - n ≤ j ∧ j < r.y.toInt + r.height.toInt + n

instance (n : Nat) (r : Rect) (i j : Int) : Decidable (r.GrownCovers n i j) :=
  inferInstanceAs (Decidable (_ ∧ (_ ∧ _) ∧ _ ∧ _))

/-- Whether a rectangle is the part of one inside an image of some size. The size is signed then, as
the rectangle of the image is what it was clipped by. -/
structure IsClip (r : Rect) (d : Dimensions) : Prop extends r.Inside d where
  signed : d.IsSigned

theorem isClip_clipped {r : Rect} {d : Dimensions} (h : (r.clipped d).isEmpty = false) :
    (r.clipped d).IsClip d := by
  have hinside := inside_intersected h
  refine ⟨hinside, (isEmpty_ofDimensions ?_).mp ?_⟩
  · obtain ⟨hx, hy, hwidth, hheight, hright, hbottom⟩ := hinside
    exact Nat.mul_pos (by omega) (by omega)
  · rw [Bool.eq_false_iff, ne_eq, isEmpty_iff_covers]
    intro hnone
    obtain ⟨hx, hy, hwidth, hheight, -, -⟩ := hinside
    have hcorner : (r.clipped d).Covers (r.clipped d).x.toInt (r.clipped d).y.toInt := by
      rw [Covers, clipped]
      omega
    exact hnone _ _ (covers_intersected.mp hcorner).1.2

/-- The pixels of an image in its part of a rectangle are those that the rectangle covers. -/
theorem covers_clipped {r : Rect} {d : Dimensions} (hsigned : d.IsSigned) {i j : Int} :
    (r.clipped d).Covers i j ↔ r.Covers i j ∧ d.Holds i j := by
  obtain ⟨hwidth, hheight⟩ := hsigned
  rw [clipped, covers_intersected, covers_ofDimensions ⟨hwidth, hheight⟩, and_iff_left_iff_imp]
  rintro ⟨-, ⟨-, hi⟩, -, hj⟩
  omega

namespace IsClip

variable {r : Rect} {d : Dimensions} (h : r.IsClip d)
include h

theorem toInt_right : r.right.toInt = r.x.toInt + r.width.toInt := by
  obtain ⟨⟨hx, hy, hwidth, hheight, hright, hbottom⟩, hsigned⟩ := h
  have hcolumns := hsigned.1
  rw [right, toInt_saturatingAdd]
  omega

theorem toInt_bottom : r.bottom.toInt = r.y.toInt + r.height.toInt := by
  obtain ⟨⟨hx, hy, hwidth, hheight, hright, hbottom⟩, hsigned⟩ := h
  have hrows := hsigned.2
  rw [bottom, toInt_saturatingAdd]
  omega

theorem isEmpty_eq_false : r.isEmpty = false :=
  Rect.isEmpty_eq_false.mpr ⟨h.width, h.height⟩

theorem holds_of_covers {i j : Int} (hcovers : r.Covers i j) : d.Holds i j := by
  obtain ⟨⟨hx, hy, hwidth, hheight, hright, hbottom⟩, -⟩ := h
  rw [Covers] at hcovers
  rw [Dimensions.Holds]
  omega

end IsClip

end Rect

namespace Repair

/-! ## Positions relative to a rectangle -/

theorem mem_span {low high i : Int} : i ∈ span low high ↔ low ≤ i ∧ i < high := by
  simp only [span, List.mem_map, List.mem_range]
  constructor
  · rintro ⟨n, hn, rfl⟩
    omega
  · intro hi
    exact ⟨(i - low).toNat, by omega, by omega⟩

theorem mem_along {length order : Nat} {p : Offset} (h : p ∈ along length order) :
    (-order ≤ p.y ∧ p.y < 0) ∨ (length ≤ p.y ∧ p.y < length + order) := by
  simp only [along, List.mem_map, List.mem_append, mem_span] at h
  obtain ⟨y, hy, rfl⟩ := h
  exact hy

/-- The neighbours all around a rectangle lie near it, and outside. -/
theorem mem_around {w h order : Nat} {p : Offset} (hp : p ∈ around w h order) :
    (-order ≤ p.x ∧ p.x < w + order) ∧ (-order ≤ p.y ∧ p.y < h + order)
      ∧ ¬((0 ≤ p.x ∧ p.x < w) ∧ 0 ≤ p.y ∧ p.y < h) := by
  simp only [around, List.mem_flatMap, List.mem_filter, List.mem_map, mem_span] at hp
  obtain ⟨y, hy, ⟨x, hx, rfl⟩, hnear⟩ := hp
  refine ⟨hx, hy, ?_⟩
  simp only [nearCorner, atSide, Bool.or_eq_true, Bool.and_eq_true, decide_eq_true_eq] at hnear
  dsimp only
  omega

namespace InPlace

/-- The position of a neighbour of the pixel in column `i` and row `j`, on integers without bounds.
Along one direction the other coordinate is that of the pixel itself. -/
def near (r : Rect) (i j : Int) (p : Offset) : Direction → Int × Int
  | .twoDim => (r.x.toInt + p.x, r.y.toInt + p.y)
  | .vertical => (i, r.y.toInt + p.y)
  | .horizontal => (r.x.toInt + p.y, j)

variable {r : Rect} {order : Nat} {direction : Direction} {i j : Int} {p : Offset}

/-- Neighbours of a covered pixel lie outside of the rectangle, but not far. -/
theorem outside_near (hcovers : r.Covers i j)
    (hp : p ∈ offsets r.width.toInt.toNat r.height.toInt.toNat order direction) :
    ¬r.Covers (near r i j p direction).1 (near r i j p direction).2
      ∧ r.GrownCovers order (near r i j p direction).1 (near r i j p direction).2 := by
  obtain ⟨⟨hleft, hright⟩, htop, hbottom⟩ := hcovers
  have hempty : r.isEmpty = false := Rect.isEmpty_eq_false.mpr (by omega)
  cases direction with
  | twoDim =>
    obtain ⟨hx, hy, hout⟩ := mem_around hp
    simp only [Rect.Covers, Rect.GrownCovers, near, hempty, true_and]
    omega
  | vertical =>
    have hy := mem_along hp
    simp only [Rect.Covers, Rect.GrownCovers, near, hempty, true_and]
    omega
  | horizontal =>
    have hx := mem_along hp
    simp only [Rect.Covers, Rect.GrownCovers, near, hempty, true_and]
    omega

/-! ## Coordinates that wrap -/

variable {image : Image} {x y : Int32} {a b : Int}

/-- A position that is not before the first coordinate shows nothing if it is after the last one, and
nothing either where it wraps to. -/
theorem pixel?_wrapped (hsigned : image.dimensions.IsSigned)
    (ha : -2147483648 ≤ a ∧ a < 4294967296) (hb : -2147483648 ≤ b ∧ b < 4294967296) :
    pixel? image (a.bmod 4294967296) (b.bmod 4294967296) = pixel? image a b := by
  obtain ⟨hwidth, hheight⟩ := hsigned
  change image.width.toNat < _ at hwidth
  change image.height.toNat < _ at hheight
  have hwrap : ∀ c : Int, -2147483648 ≤ c ∧ c < 4294967296 →
      c.bmod 4294967296 = c ∨ (2147483648 ≤ c ∧ c.bmod 4294967296 < 0) := by
    intro c hc
    rw [Int.bmod_def]
    omega
  rcases hwrap a ha with ha' | ⟨hlast, hneg⟩
  · rcases hwrap b hb with hb' | ⟨hlast, hneg⟩
    · rw [ha', hb']
    · rw [pixel?, pixel?, if_neg (by omega), if_neg (by omega)]
  · rw [pixel?, pixel?, if_neg (by omega), if_neg (by omega)]

theorem toInt_add_ofInt (x : Int32) (n : Int) :
    (x + Int32.ofInt n).toInt = (x.toInt + n).bmod 4294967296 := by
  rw [Int32.toInt_add, Int32.toInt_ofInt, Int.add_bmod_bmod]

/-! ## The ring -/

def spotOf (r : Rect) : Spot :=
  ⟨r.x.toInt.toNat, r.y.toInt.toNat, r.width.toInt.toNat, r.height.toInt.toNat⟩

theorem spotOf_eq {r : Rect} {d : Dimensions} (h : r.IsClip d) :
    ((spotOf r).x = r.x.toInt ∧ (spotOf r).y = r.y.toInt)
      ∧ (spotOf r).width = r.width.toInt ∧ (spotOf r).height = r.height.toInt := by
  obtain ⟨⟨hx, hy, hwidth, hheight, -, -⟩, -⟩ := h
  dsimp only [spotOf]
  omega

theorem between_eq {low high : Int32} {n : Nat} (h : high.toInt - low.toInt = n) :
    between low high = (List.range n).map fun (i : Nat) => Int32.ofInt (low.toInt + i) := by
  rw [between, h, Int.toNat_natCast]

theorem between_eq_map {low high : Int32} {n : Nat} {f : Nat → Int}
    (h : high.toInt - low.toInt = n) (hf : ∀ i : Nat, f i = low.toInt + i) :
    between low high = (List.range n).map fun i => Int32.ofInt (f i) := by
  simp only [between_eq h, hf]

end InPlace

open Filter.Checked (ringAt)

/-- The ring of a spot, position by position. -/
theorem ring_eq_filterMap (image : Image) (s : Spot) :
    ring image s = (ringAt s).filterMap fun p => pixel? image p.1 p.2 := by
  have hpair : ∀ a b : Int × Int, [a, b].filterMap (fun p => pixel? image p.1 p.2)
      = (pixel? image a.1 a.2).toList ++ (pixel? image b.1 b.2).toList := by
    intro a b
    cases ha : pixel? image a.1 a.2 <;> cases hb : pixel? image b.1 b.2 <;> simp [ha, hb]
  simp only [ring, ringAt, List.filterMap_append, List.filterMap_flatMap, hpair]

namespace InPlace

variable {r : Rect} {image : Image}

/-- The ring of a part of an image is that of the spot. -/
theorem ring_eq (h : r.IsClip image.dimensions) : ring image r = Repair.ring image (spotOf r) := by
  have hcolumns := h.toInt_right
  have hrows := h.toInt_bottom
  obtain ⟨⟨hsx, hsy⟩, hsw, hsh⟩ := spotOf_eq h
  obtain ⟨⟨hx, hy, hwidth, hheight, hright, hbottom⟩, hsigned⟩ := h
  have hbound := hsigned.1
  have hbound' := hsigned.2
  have hone : (1 : Int32).toInt = 1 := rfl
  have hsame : ∀ {x y : Int32} {a b : Int}, x.toInt = a → y.toInt = b →
      pixelAt? image x y = pixel? image a b := by
    rintro x y a b rfl rfl
    rfl
  have habove : (r.y - 1).toInt = (spotOf r).y - 1 := by
    rw [Int32.toInt_sub, hone, Int.bmod_eq_of_le] <;> omega
  have hleft : (r.x - 1).toInt = (spotOf r).x - 1 := by
    rw [Int32.toInt_sub, hone, Int.bmod_eq_of_le] <;> omega
  have hbelow : r.bottom.toInt = (spotOf r).y + (spotOf r).height := by omega
  have hbehind : r.right.toInt = (spotOf r).x + (spotOf r).width := by omega
  have hcolumn : ∀ i < (spotOf r).width,
      (Int32.ofInt (r.x.toInt + (i : Int))).toInt = (spotOf r).x + i := by
    intro i hi
    rw [Int32.toInt_ofInt_of_le] <;> omega
  have hrow : ∀ i < (spotOf r).height,
      (Int32.ofInt (r.y.toInt + (i : Int))).toInt = (spotOf r).y + i := by
    intro i hi
    rw [Int32.toInt_ofInt_of_le] <;> omega
  rw [ring, between_eq (n := (spotOf r).width) (by omega),
    between_eq (n := (spotOf r).height) (by omega), List.flatMap_map,
    List.flatMap_map]
  refine congrArg₂ (· ++ ·) (List.flatMap_congr fun i hi => ?_) (List.flatMap_congr fun i hi => ?_)
  · have hi := hcolumn i (List.mem_range.mp hi)
    rw [hsame hi habove, hsame hi hbelow]
  · have hi := hrow i (List.mem_range.mp hi)
    rw [hsame hleft hi, hsame hbehind hi]

/-- The ring lies one step beside the rectangle. -/
theorem outside_ringAt (h : r.IsClip image.dimensions) {p : Int × Int}
    (hp : p ∈ ringAt (spotOf r)) : ¬r.Covers p.1 p.2 ∧ r.GrownCovers 1 p.1 p.2 := by
  have hempty := h.isEmpty_eq_false
  obtain ⟨⟨hsx, hsy⟩, hsw, hsh⟩ := spotOf_eq h
  simp only [ringAt, List.mem_append, List.mem_flatMap, List.mem_range, List.mem_cons,
    List.not_mem_nil, or_false] at hp
  simp only [Rect.Covers, Rect.GrownCovers, hempty, true_and]
  obtain ⟨i, hi, rfl | rfl⟩ | ⟨i, hi, rfl | rfl⟩ := hp <;> dsimp only <;> omega

end InPlace

end Repair

end Darkroom
