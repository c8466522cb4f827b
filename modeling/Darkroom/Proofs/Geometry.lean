import Darkroom.Geometry
import Mathlib.Tactic.Common

/-!
# Rectangles inside images

Coordinates saturate and sizes wrap, so a rectangle may reach beyond an image in many ways. What it
shares with the image does not (`Rect.inside_intersected`), whatever the sizes of both.
-/

namespace Darkroom

/-! ## Coordinates as integers -/

theorem toInt_max (a b : Int32) : (max a b).toInt = max a.toInt b.toInt := by
  have hmax : max a b = if a ≤ b then b else a := rfl
  rw [hmax]
  split <;> rw [Int32.le_iff_toInt_le] at * <;> omega

theorem toInt_min (a b : Int32) : (min a b).toInt = min a.toInt b.toInt := by
  have hmin : min a b = if a ≤ b then a else b := rfl
  rw [hmin]
  split <;> rw [Int32.le_iff_toInt_le] at * <;> omega

theorem toInt_ofIntClamp (n : Int) :
    (Int32.ofIntClamp n).toInt = max (-2147483648) (min n 2147483647) := by
  have hmin : Int32.minValue.toInt = -2147483648 := by decide
  have hmax : Int32.maxValue.toInt = 2147483647 := by decide
  by_cases hlow : Int32.minValue.toInt ≤ n
  · by_cases hhigh : n ≤ Int32.maxValue.toInt
    · rw [Int32.toInt_ofIntClamp hlow hhigh]
      omega
    · rw [Int32.ofIntClamp, dif_pos hlow, dif_neg hhigh]
      omega
  · rw [Int32.ofIntClamp, dif_neg hlow]
    omega

theorem toInt_toInt32 (n : UInt32) :
    n.toInt32.toInt
      = if n.toNat < 2147483648 then (n.toNat : Int) else n.toNat - 4294967296 := by
  have hcond := BitVec.toInt_eq_toNat_cond n.toInt32.toBitVec
  rw [UInt32.toBitVec_toInt32, UInt32.toNat_toBitVec] at hcond
  rw [Int32.toInt, UInt32.toBitVec_toInt32, hcond]
  split <;> split <;> omega

theorem toNat_toUInt32 (n : Int32) (h : 0 ≤ n.toInt) : n.toUInt32.toNat = n.toInt.toNat := by
  have hcond := BitVec.toInt_eq_toNat_cond n.toBitVec
  rw [← UInt32.toNat_toBitVec, Int32.toBitVec_toUInt32]
  rw [Int32.toInt] at h ⊢
  have := n.toBitVec.isLt
  split at hcond <;> omega

/-! ## Columns and rows -/

/-- Whether a rectangle covers a column and a row, on integers without bounds. This is what a
rectangle means, and what the operations on 32 bits are compared with. -/
def Rect.Covers (r : Rect) (i j : Int) : Prop :=
  (r.x.toInt ≤ i ∧ i < r.x.toInt + r.width.toInt) ∧ r.y.toInt ≤ j ∧ j < r.y.toInt + r.height.toInt

/-- Whether an image of some size has a column and a row. -/
def Dimensions.Holds (d : Dimensions) (i j : Int) : Prop :=
  (0 ≤ i ∧ i < d.width.toNat) ∧ 0 ≤ j ∧ j < d.height.toNat

/-- Whether a size can be that of a rectangle: both numbers are signed 32-bit numbers. Images may be
larger, and then no rectangle covers all of them. -/
def Dimensions.IsSigned (d : Dimensions) : Prop :=
  d.width.toNat < 2147483648 ∧ d.height.toNat < 2147483648

instance (r : Rect) (i j : Int) : Decidable (r.Covers i j) :=
  inferInstanceAs (Decidable ((_ ∧ _) ∧ _ ∧ _))

instance (d : Dimensions) (i j : Int) : Decidable (d.Holds i j) :=
  inferInstanceAs (Decidable ((_ ∧ _) ∧ _ ∧ _))

instance (d : Dimensions) : Decidable d.IsSigned :=
  inferInstanceAs (Decidable (_ ∧ _))

/-! ## Parts of images -/

namespace Rect

theorem toInt_ofDimensions {d : Dimensions} (h : d.IsSigned) :
    (ofDimensions d).width.toInt = d.width.toNat
      ∧ (ofDimensions d).height.toInt = d.height.toNat := by
  rw [ofDimensions, toInt_toInt32, toInt_toInt32, if_pos h.1, if_pos h.2]
  exact ⟨rfl, rfl⟩

/-- The rectangle of an image covers the image, if both have the same size. -/
theorem covers_ofDimensions {d : Dimensions} (h : d.IsSigned) {i j : Int} :
    (ofDimensions d).Covers i j ↔ d.Holds i j := by
  obtain ⟨hwidth, hheight⟩ := toInt_ofDimensions h
  rw [Covers, Dimensions.Holds, hwidth, hheight, ofDimensions, Int32.toInt_zero, Int.zero_add,
    Int.zero_add]

/-- Whether a rectangle lies inside an image of some size, with at least one pixel. Then all of its
coordinates are natural numbers, and rows and columns can be counted with them. -/
structure Inside (r : Rect) (d : Dimensions) : Prop where
  x : 0 ≤ r.x.toInt
  y : 0 ≤ r.y.toInt
  width : 0 < r.width.toInt
  height : 0 < r.height.toInt
  right : r.x.toInt + r.width.toInt ≤ d.width.toNat
  bottom : r.y.toInt + r.height.toInt ≤ d.height.toNat

theorem isEmpty_eq_false {r : Rect} :
    r.isEmpty = false ↔ 0 < r.width.toInt ∧ 0 < r.height.toInt := by
  rw [isEmpty, Bool.or_eq_false_iff, decide_eq_false_iff_not, decide_eq_false_iff_not,
    Int32.le_iff_toInt_le, Int32.le_iff_toInt_le, Int32.toInt_zero, Int.not_le, Int.not_le]

/-- The rectangle of an image with pixels holds no point if a size of the image has wrapped. -/
theorem isEmpty_ofDimensions {d : Dimensions} (hpos : 0 < d.pixels) :
    (ofDimensions d).isEmpty = false ↔ d.IsSigned := by
  have hwidth : 0 < d.width.toNat := Nat.pos_of_mul_pos_right hpos
  have hheight : 0 < d.height.toNat := Nat.pos_of_mul_pos_left hpos
  have hcolumns := toInt_toInt32 d.width
  have hrows := toInt_toInt32 d.height
  rw [isEmpty_eq_false, ofDimensions, hcolumns, hrows, Dimensions.IsSigned]
  have hwidth' := d.width.toNat_lt
  have hheight' := d.height.toNat_lt
  split <;> split <;> omega

/-- One axis of what a rectangle shares with an image. -/
theorem axis_inside (start length : Int32) (size : UInt32)
    (h : 0 < (saturatingSub (min (saturatingAdd start length) (saturatingAdd 0 size.toInt32))
      (max start 0)).toInt) :
    0 ≤ (max start 0).toInt
      ∧ (max start 0).toInt
          + (saturatingSub (min (saturatingAdd start length) (saturatingAdd 0 size.toInt32))
            (max start 0)).toInt ≤ size.toNat := by
  have hsize := toInt_toInt32 size
  simp only [saturatingAdd, saturatingSub, toInt_ofIntClamp, toInt_max, toInt_min,
    Int32.toInt_zero] at h ⊢
  split at hsize <;> omega

theorem inside_intersected {r : Rect} {d : Dimensions}
    (h : (r.intersected (ofDimensions d)).isEmpty = false) :
    (r.intersected (ofDimensions d)).Inside d := by
  have hsize := isEmpty_eq_false.mp h
  have hparts : r.intersected (ofDimensions d)
      = ⟨max r.x 0, max r.y 0,
          saturatingSub (min r.right (ofDimensions d).right) (max r.x 0),
          saturatingSub (min r.bottom (ofDimensions d).bottom) (max r.y 0)⟩ := by
    unfold intersected at h ⊢
    dsimp only at h ⊢
    split at h
    · cases h
    · exact if_neg ‹_›
  rw [hparts] at hsize ⊢
  dsimp only [right, bottom, ofDimensions] at hsize ⊢
  obtain ⟨hx, hright⟩ := axis_inside _ _ _ hsize.1
  obtain ⟨hy, hbottom⟩ := axis_inside _ _ _ hsize.2
  refine ⟨?_, ?_, ?_, ?_, ?_, ?_⟩ <;> dsimp only
  exacts [hx, hy, hsize.1, hsize.2, hright, hbottom]

/-- What is copied of an image of some size: all of it, or what a rectangle shares with it. -/
def copied (d : Dimensions) (rect : Option Rect) : Rect :=
  rect.elim (ofDimensions d) fun r => r.intersected (ofDimensions d)

/-- What is copied lies inside, unless it is the rectangle of the image, whose size may have wrapped. -/
theorem inside_copied {d : Dimensions} {rect : Option Rect} (hpart : copied d rect ≠ ofDimensions d)
    (hempty : (copied d rect).isEmpty = false) : (copied d rect).Inside d := by
  cases rect with
  | none => exact absurd rfl hpart
  | some r => exact inside_intersected hempty

end Rect

end Darkroom
