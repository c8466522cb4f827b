import Darkroom.Proofs.Geometry
import Darkroom.Proofs.Image.Checked
import Darkroom.Proofs.Image.Difference

/-!
# The first pixel that differs

Two images of one geometry are compared by the indices of their pixels, which count along the rows,
one row after the other (`row_major_lt`). So the least index at which they differ is that of the first
pixel in which they do (`firstDiffering_iff`), and the point that is found is this pixel
(`firstDifference?_eq_some`).
-/

namespace Darkroom.Image

variable {image a b : Image} {x y : Nat}

/-! ## Pixels and their indices -/

def stored (image : Image) (x y : Nat) : Array UInt8 :=
  image.bytes.extract (image.offset x y) (image.offset x y + image.depth.pixelBytes)

theorem row_major_lt {w i j : Nat} (hi : i < w) (hx : x < w) :
    j * w + i < y * w + x ↔ j < y ∨ j = y ∧ i < x := by
  rcases Nat.lt_trichotomy j y with hlt | rfl | hgt
  · have hrow := Nat.mul_le_mul_right w (Nat.succ_le_of_lt hlt)
    rw [Nat.succ_mul] at hrow
    omega
  · omega
  · have hrow := Nat.mul_le_mul_right w (Nat.succ_le_of_lt hgt)
    rw [Nat.succ_mul] at hrow
    omega

/-- The place of a pixel, by its index. -/
theorem place_of_index {k : Nat} (hk : k < image.pixelCount) :
    k % image.width.toNat < image.width.toNat ∧ k / image.width.toNat < image.height.toNat :=
  place_lt hk

/-- The bytes of a pixel are those at its index. -/
theorem WellFormed.toList_stored (h : image.WellFormed) (hx : x < image.width.toNat)
    (hy : y < image.height.toNat) :
    (image.stored x y).toList = image.pixelAt (y * image.width.toNat + x) := by
  have hfits : image.offset x y + image.depth.pixelBytes ≤ image.bytes.size := by
    rw [h.bytes_size]
    exact chunk_fits (index_lt hx hy) _
  refine List.ext_getElem? fun k => ?_
  rw [Array.getElem?_toList]
  by_cases hk : k < image.depth.pixelBytes
  · have hbyte : image.offset x y + k < image.bytes.size := by omega
    rw [stored, Bytes.getElem?_slice hfits hk, pixelAt, List.getElem?_map, List.getElem?_range hk,
      Option.map_some, ← offset, Array.getD_eq_getD_getElem?, Array.getElem?_eq_getElem hbyte,
      Option.getD_some]
  · rw [Array.getElem?_eq_none, List.getElem?_eq_none]
    · simp [pixelAt]
      omega
    · rw [stored, Bytes.size_slice hfits]
      omega

theorem WellFormed.stored_eq_iff (ha : a.WellFormed) (hb : b.WellFormed)
    (hgeometry : a.sameGeometry b) (hx : x < a.width.toNat) (hy : y < a.height.toNat) :
    a.stored x y = b.stored x y
      ↔ a.pixelAt (y * a.width.toNat + x) = b.pixelAt (y * a.width.toNat + x) := by
  obtain ⟨hwidth, hheight, -⟩ := sameGeometry_iff.mp hgeometry
  have hbytes := hb.toList_stored (hwidth ▸ hx) (hheight ▸ hy)
  rw [← Array.toList_inj, ha.toList_stored hx hy, hbytes, hwidth]

/-! ## The least one -/

/-- The first image has a pixel in column `x` and row `y`, where its bytes are not those of the second
image, and all pixels before it, row by row, have the same bytes in both. -/
structure FirstDiffering (a b : Image) (x y : Nat) : Prop where
  column : x < a.width.toNat
  row : y < a.height.toNat
  differs : a.stored x y ≠ b.stored x y
  before : ∀ i < a.width.toNat, ∀ j, j < y ∨ j = y ∧ i < x → a.stored i j = b.stored i j

/-- Whether a point is where two images differ first. Points have signed coordinates, while columns
and rows are counted from zero. -/
def DifferFirstAt (a b : Image) (p : Point) : Prop :=
  ∃ x y : Nat, (p.x.toInt = x ∧ p.y.toInt = y) ∧ FirstDiffering a b x y

theorem firstDifferentIndex?_eq_some {k : Nat} :
    a.firstDifferentIndex? b = some k
      ↔ k < a.pixelCount ∧ a.pixelAt k ≠ b.pixelAt k ∧ ∀ l < k, a.pixelAt l = b.pixelAt l := by
  rw [firstDifferentIndex?, List.find?_range_eq_some, List.mem_range, and_left_comm]
  simp only [bne_iff_ne, Bool.not_eq_true', bne_eq_false_iff_eq]

/-- The least index that differs is the index of the first pixel that differs. -/
theorem firstDiffering_iff (ha : a.WellFormed) (hb : b.WellFormed) (hgeometry : a.sameGeometry b)
    (hx : x < a.width.toNat) :
    FirstDiffering a b x y ↔ a.firstDifferentIndex? b = some (y * a.width.toNat + x) := by
  rw [firstDifferentIndex?_eq_some]
  constructor
  · rintro ⟨-, hy, hdiffers, hbefore⟩
    have hindex := index_lt hx hy
    refine ⟨hindex, mt (ha.stored_eq_iff hb hgeometry hx hy).mpr hdiffers, fun l hl => ?_⟩
    -- Every index before it is that of a pixel before it.
    obtain ⟨hi, hj⟩ := place_of_index (Nat.lt_trans hl hindex)
    rw [← index_of_place (w := a.width.toNat) (i := l)] at hl ⊢
    exact (ha.stored_eq_iff hb hgeometry hi hj).mp (hbefore _ hi _ ((row_major_lt hi hx).mp hl))
  · rintro ⟨hindex, hdiffers, hbefore⟩
    have hy := (place_of_index hindex).2
    rw [index_div hx] at hy
    refine ⟨hx, hy, mt (ha.stored_eq_iff hb hgeometry hx hy).mp hdiffers, fun i hi j hij => ?_⟩
    have hj : j < a.height.toNat := by omega
    exact (ha.stored_eq_iff hb hgeometry hi hj).mpr (hbefore _ ((row_major_lt hi hx).mpr hij))

/-- The point that is found is that of the first pixel that differs. -/
theorem firstDifference?_eq_some (ha : a.WellFormed) (hb : b.WellFormed)
    (hgeometry : a.sameGeometry b) (hsigned : a.dimensions.IsSigned) {p : Point} :
    a.firstDifference? b = some p ↔ DifferFirstAt a b p := by
  obtain ⟨hwidth, hheight⟩ := hsigned
  have hnull := ha.isNull_eq hb hgeometry
  rw [firstDifference?, if_neg (by simp [hgeometry, hnull]), Option.map_eq_some_iff]
  constructor
  · rintro ⟨k, hk, rfl⟩
    obtain ⟨hx, hy⟩ := place_of_index (firstDifferentIndex?_eq_some.mp hk).1
    refine ⟨k % a.width.toNat, k / a.width.toNat, ⟨?_, ?_⟩, ?_⟩
    · exact Int32.toInt_ofNat_of_lt (Nat.lt_trans hx hwidth)
    · exact Int32.toInt_ofNat_of_lt (Nat.lt_trans hy hheight)
    · rwa [firstDiffering_iff ha hb hgeometry hx, index_of_place]
  · rintro ⟨x, y, ⟨hpx, hpy⟩, hfirst⟩
    have hcolumn : (Int32.ofNat x).toInt = p.x.toInt :=
      (Int32.toInt_ofNat_of_lt (Nat.lt_trans hfirst.column hwidth)).trans hpx.symm
    have hrow : (Int32.ofNat y).toInt = p.y.toInt :=
      (Int32.toInt_ofNat_of_lt (Nat.lt_trans hfirst.row hheight)).trans hpy.symm
    refine ⟨_, (firstDiffering_iff ha hb hgeometry hfirst.column).mp hfirst, ?_⟩
    rw [index_mod hfirst.column, index_div hfirst.column, Int32.toInt_inj.mp hcolumn,
      Int32.toInt_inj.mp hrow]

/-! ## Both ways -/

theorem sameGeometry_comm (a b : Image) : a.sameGeometry b = b.sameGeometry a := by
  rw [Bool.eq_iff_iff, sameGeometry_iff, sameGeometry_iff]
  simp only [eq_comm]

theorem firstDifference?_comm (a b : Image) : a.firstDifference? b = b.firstDifference? a := by
  rw [firstDifference?, firstDifference?, sameGeometry_comm a b, bne_comm]
  split
  · rfl
  · rename_i hsame
    have hgeometry : b.sameGeometry a := by
      cases hgeometry : b.sameGeometry a <;> simp_all
    obtain ⟨hwidth, -, -⟩ := sameGeometry_iff.mp hgeometry
    rw [firstDifferentIndex?, firstDifferentIndex?, pixelCount_eq hgeometry, hwidth]
    simp only [bne_comm]

/-- Images of different geometry differ at the origin. -/
theorem firstDifference?_of_not_sameGeometry (hgeometry : a.sameGeometry b = false) :
    a.firstDifference? b = some ⟨0, 0⟩ := by
  rw [firstDifference?, hgeometry, Bool.not_false, Bool.true_or, if_pos rfl]

end Darkroom.Image
