import Darkroom.Proofs.Geometry
import Mathlib.Data.Set.Basic

/-!
# What two rectangles share

A rectangle contains the points that it covers on integers without bounds, but for the last column
and the last row that coordinates have: a far edge that saturates is that column or row, and lies
outside (`Rect.contains_iff_covers`). Where two rectangles meet, their common part is no longer than
either of them, so its size is a coordinate and computing it does not saturate once more
(`Rect.toInt_shared`). So the intersection of two rectangles covers just the points that both contain
(`Rect.covers_intersected_iff`), and as sets of points rectangles intersect like sets
(`Rect.ExactIntersection`).
-/

namespace Darkroom.Rect

variable {a b r : Rect} {p : Point} {x x' length length' : Int32} {i j : Int}

/-! ## One axis -/

/-- The end of an axis, as an integer. -/
theorem toInt_saturatingAdd (x length : Int32) :
    (saturatingAdd x length).toInt
      = max (-2147483648) (min (x.toInt + length.toInt) 2147483647) :=
  toInt_ofIntClamp _

/-- From where both axes have begun to where one of them ends first. -/
theorem between_iff (x x' length length' : Int32) (i : Int) :
    max x.toInt x'.toInt ≤ i
        ∧ i < min (saturatingAdd x length).toInt (saturatingAdd x' length').toInt
      ↔ ((x.toInt ≤ i ∧ i < x.toInt + length.toInt) ∧ x'.toInt ≤ i ∧ i < x'.toInt + length'.toInt)
        ∧ i < 2147483647 := by
  have hx := x.le_toInt
  have hx' := x'.le_toInt
  rw [toInt_saturatingAdd, toInt_saturatingAdd]
  omega

/-- What two axes share is no longer than either, so its length does not saturate. -/
theorem toInt_shared (h : max x.toInt x'.toInt
      < min (saturatingAdd x length).toInt (saturatingAdd x' length').toInt) :
    (saturatingSub (min (saturatingAdd x length) (saturatingAdd x' length')) (max x x')).toInt
        = min (saturatingAdd x length).toInt (saturatingAdd x' length').toInt
          - max x.toInt x'.toInt
      ∧ (saturatingSub (min (saturatingAdd x length) (saturatingAdd x' length')) (max x x')).toInt
        ≤ min length.toInt length'.toInt := by
  have hx := x.le_toInt
  have hx' := x'.le_toInt
  have hlength := length.toInt_lt
  have hle : min (saturatingAdd x length).toInt (saturatingAdd x' length').toInt
      - max x.toInt x'.toInt ≤ min length.toInt length'.toInt := by
    rw [toInt_saturatingAdd, toInt_saturatingAdd] at h ⊢
    omega
  rw [saturatingSub, toInt_ofIntClamp, toInt_min, toInt_max]
  omega

/-! ## Both axes -/

theorem contains_iff_covers :
    r.contains p
      ↔ r.Covers p.x.toInt p.y.toInt ∧ p.x.toInt < 2147483647 ∧ p.y.toInt < 2147483647 := by
  have hx := p.x.le_toInt
  have hy := p.y.le_toInt
  simp only [contains, Bool.and_eq_true, decide_eq_true_eq, Int32.le_iff_toInt_le,
    Int32.lt_iff_toInt_lt, right, bottom, toInt_saturatingAdd, Covers]
  omega

theorem isEmpty_iff_covers : r.isEmpty ↔ ∀ i j, ¬r.Covers i j := by
  constructor
  · intro hempty i j hcovers
    obtain ⟨⟨hleft, hright⟩, htop, hbottom⟩ := hcovers
    have hsize := isEmpty_eq_false.mpr ⟨(by omega : 0 < r.width.toInt), by omega⟩
    rw [hempty] at hsize
    cases hsize
  · intro hnone
    by_contra hempty
    obtain ⟨hwidth, hheight⟩ := isEmpty_eq_false.mp (Bool.eq_false_iff.mpr hempty)
    exact hnone r.x.toInt r.y.toInt ⟨⟨Int.le_refl _, by omega⟩, Int.le_refl _, by omega⟩

/-- Two rectangles share nothing, or they meet along both axes; then the size of what they share is
the exact distance of its edges. -/
theorem intersected_cases (a b : Rect) :
    (a.intersected b = ⟨0, 0, 0, 0⟩
        ∧ (min a.right.toInt b.right.toInt ≤ max a.x.toInt b.x.toInt
          ∨ min a.bottom.toInt b.bottom.toInt ≤ max a.y.toInt b.y.toInt))
      ∨ (a.intersected b).isEmpty = false
        ∧ ∃ width height, a.intersected b = ⟨max a.x b.x, max a.y b.y, width, height⟩
          ∧ (width.toInt = min a.right.toInt b.right.toInt - max a.x.toInt b.x.toInt
            ∧ width.toInt ≤ min a.width.toInt b.width.toInt)
          ∧ height.toInt = min a.bottom.toInt b.bottom.toInt - max a.y.toInt b.y.toInt
          ∧ height.toInt ≤ min a.height.toInt b.height.toInt := by
  have happart : min a.right b.right ≤ max a.x b.x ∨ min a.bottom b.bottom ≤ max a.y b.y
      ↔ min a.right.toInt b.right.toInt ≤ max a.x.toInt b.x.toInt
        ∨ min a.bottom.toInt b.bottom.toInt ≤ max a.y.toInt b.y.toInt := by
    simp only [Int32.le_iff_toInt_le, toInt_min, toInt_max]
  by_cases h : min a.right b.right ≤ max a.x b.x ∨ min a.bottom b.bottom ≤ max a.y b.y
  · exact Or.inl ⟨if_pos h, happart.mp h⟩
  · right
    have hshared : a.intersected b = ⟨max a.x b.x, max a.y b.y, _, _⟩ := if_neg h
    rw [happart, not_or, Int.not_le, Int.not_le] at h
    have hwidth := toInt_shared h.1
    have hheight := toInt_shared h.2
    refine ⟨?_, _, _, hshared, hwidth, hheight⟩
    rw [hshared, isEmpty_eq_false]
    dsimp only [right, bottom] at h ⊢
    rw [hwidth.1, hheight.1]
    exact ⟨Int.sub_pos_of_lt h.1, Int.sub_pos_of_lt h.2⟩

theorem intersected_of_isEmpty (h : (a.intersected b).isEmpty) : a.intersected b = ⟨0, 0, 0, 0⟩ := by
  rcases intersected_cases a b with ⟨hnone, -⟩ | ⟨hempty, -⟩
  · exact hnone
  · rw [h] at hempty
    cases hempty

theorem covers_intersected :
    (a.intersected b).Covers i j
      ↔ (a.Covers i j ∧ b.Covers i j) ∧ i < 2147483647 ∧ j < 2147483647 := by
  have hcolumns := between_iff a.x b.x a.width b.width i
  have hrows := between_iff a.y b.y a.height b.height j
  have hboth : (a.Covers i j ∧ b.Covers i j) ∧ i < 2147483647 ∧ j < 2147483647
      ↔ (max a.x.toInt b.x.toInt ≤ i ∧ i < min a.right.toInt b.right.toInt)
        ∧ max a.y.toInt b.y.toInt ≤ j ∧ j < min a.bottom.toInt b.bottom.toInt := by
    rw [right, right, bottom, bottom, hcolumns, hrows]
    constructor
    · rintro ⟨⟨⟨hia, hja⟩, hib, hjb⟩, hi, hj⟩
      exact ⟨⟨⟨hia, hib⟩, hi⟩, ⟨hja, hjb⟩, hj⟩
    · rintro ⟨⟨⟨hia, hib⟩, hi⟩, ⟨hja, hjb⟩, hj⟩
      exact ⟨⟨⟨hia, hja⟩, hib, hjb⟩, hi, hj⟩
  rw [hboth]
  rcases intersected_cases a b with ⟨hnone, hapart⟩ | ⟨-, width, height, hshared, hwidth, hheight⟩
  · rw [hnone, Covers, Int32.toInt_zero]
    omega
  · rw [hshared, Covers, toInt_max, toInt_max, hwidth.1, hheight.1]
    omega

theorem contains_intersected :
    (a.intersected b).contains p ↔ a.contains p ∧ b.contains p := by
  simp only [contains_iff_covers, covers_intersected]
  constructor
  · rintro ⟨⟨⟨ha, hb⟩, hp⟩, -⟩
    exact ⟨⟨ha, hp⟩, hb, hp⟩
  · rintro ⟨⟨ha, hp⟩, hb, -⟩
    exact ⟨⟨⟨ha, hb⟩, hp⟩, hp⟩

/-- The intersection covers on integers without bounds just the points that both rectangles
contain. -/
theorem covers_intersected_iff :
    (a.intersected b).Covers i j
      ↔ ∃ p : Point, (p.x.toInt = i ∧ p.y.toInt = j) ∧ a.contains p ∧ b.contains p := by
  constructor
  · intro hcovers
    obtain ⟨⟨ha, -⟩, hi, hj⟩ := covers_intersected.mp hcovers
    obtain ⟨⟨hleft, -⟩, htop, -⟩ := ha
    have hx : (Int32.ofInt i).toInt = i :=
      Int32.toInt_ofInt_of_le (Int.le_trans a.x.le_toInt hleft) (by omega)
    have hy : (Int32.ofInt j).toInt = j :=
      Int32.toInt_ofInt_of_le (Int.le_trans a.y.le_toInt htop) (by omega)
    refine ⟨⟨Int32.ofInt i, Int32.ofInt j⟩, ⟨hx, hy⟩, contains_intersected.mp ?_⟩
    rw [contains_iff_covers, hx, hy]
    exact ⟨hcovers, hi, hj⟩
  · rintro ⟨p, ⟨rfl, rfl⟩, hp⟩
    exact (contains_iff_covers.mp (contains_intersected.mpr hp)).1

/-- The size of an intersection that is not empty. -/
theorem size_intersected (h : (a.intersected b).isEmpty = false) :
    ((a.intersected b).width.toInt = min a.right.toInt b.right.toInt - max a.x.toInt b.x.toInt
        ∧ (a.intersected b).width.toInt ≤ min a.width.toInt b.width.toInt)
      ∧ (a.intersected b).height.toInt
          = min a.bottom.toInt b.bottom.toInt - max a.y.toInt b.y.toInt
        ∧ (a.intersected b).height.toInt ≤ min a.height.toInt b.height.toInt := by
  rcases intersected_cases a b with ⟨hnone, -⟩ | ⟨-, width, height, hshared, hsize⟩
  · rw [hnone] at h
    cases h
  · rw [hshared]
    exact hsize

theorem isEmpty_intersected :
    (a.intersected b).isEmpty ↔ ∀ p, ¬(a.contains p ∧ b.contains p) := by
  simp only [isEmpty_iff_covers, covers_intersected_iff, not_exists]
  exact ⟨fun h p hp => h _ _ p ⟨⟨rfl, rfl⟩, hp⟩, fun h _ _ p hp => h p hp.2⟩

/-! ## Sets of points -/

def points (r : Rect) : Set Point :=
  {p | r.contains p}

theorem points_intersected (a b : Rect) : (a.intersected b).points = a.points ∩ b.points :=
  Set.ext fun _ => contains_intersected

/-- What the intersection of two rectangles is. It contains the points that both contain, and is empty if
there are none. As sets of points, intersections commute, associate and are idempotent. The size of one
that is not empty is the exact distance of its edges, no larger than either rectangle; and with that size
an intersection covers on integers without bounds, where nothing saturates, just the shared points. -/
structure ExactIntersection (a b : Rect) : Prop where
  contains_iff : ∀ p, (a.intersected b).contains p ↔ a.contains p ∧ b.contains p
  isEmpty_iff : (a.intersected b).isEmpty ↔ ∀ p, ¬(a.contains p ∧ b.contains p)
  points_comm : (a.intersected b).points = (b.intersected a).points
  points_assoc : ∀ c,
    ((a.intersected b).intersected c).points = (a.intersected (b.intersected c)).points
  points_self : (a.intersected a).points = a.points
  width : (a.intersected b).isEmpty = false →
    (a.intersected b).width.toInt = min a.right.toInt b.right.toInt - max a.x.toInt b.x.toInt
      ∧ (a.intersected b).width.toInt ≤ min a.width.toInt b.width.toInt
  height : (a.intersected b).isEmpty = false →
    (a.intersected b).height.toInt = min a.bottom.toInt b.bottom.toInt - max a.y.toInt b.y.toInt
      ∧ (a.intersected b).height.toInt ≤ min a.height.toInt b.height.toInt
  covers_iff : ∀ i j, (a.intersected b).Covers i j
    ↔ ∃ p : Point, (p.x.toInt = i ∧ p.y.toInt = j) ∧ a.contains p ∧ b.contains p

/-- Rectangles on signed 32-bit numbers intersect as sets of points do, with nothing lost at the edges. -/
theorem intersected_exact (a b : Rect) : ExactIntersection a b where
  contains_iff _ := contains_intersected
  isEmpty_iff := isEmpty_intersected
  points_comm := by rw [points_intersected, points_intersected, Set.inter_comm]
  points_assoc c := by simp only [points_intersected, Set.inter_assoc]
  points_self := by rw [points_intersected, Set.inter_self]
  width hempty := (size_intersected hempty).1
  height hempty := (size_intersected hempty).2
  covers_iff _ _ := covers_intersected_iff

/-- Two rectangles beyond the last column share a single one. -/
theorem intersected_exact_lastColumn :
    let a : Rect := ⟨2147483646, 0, 5, 1⟩
    let b : Rect := ⟨2147483640, -4, 2147483647, 9⟩
    (a.intersected b).isEmpty = false ∧ (a.intersected b).width.toInt = 1
      ∧ (a.intersected b).contains ⟨2147483646, 0⟩ := by
  intro a b
  have hexact := intersected_exact a b
  have hempty : (a.intersected b).isEmpty = false := by decide
  obtain ⟨hwidth, -⟩ := hexact.width hempty
  exact ⟨hempty, hwidth.trans (by decide),
    (hexact.contains_iff _).mpr ⟨by decide, by decide⟩⟩

end Darkroom.Rect
