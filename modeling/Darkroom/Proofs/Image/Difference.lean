import Darkroom.Image.Fingerprint
import Darkroom.Proofs.Image.Keeps

/-!
# Where images differ

Images of one geometry are compared pixel by pixel. The pixels of a well-formed image are all of its
bytes, so two such images in which no pixel differs are the same but for the mark that says whether
they have alpha, which is not part of any pixel (`firstDifference?_eq_none`).
-/

namespace Darkroom.Image

section

variable {a b : Image}

theorem sameGeometry_iff :
    a.sameGeometry b ↔ a.width = b.width ∧ a.height = b.height ∧ a.depth = b.depth := by
  simp only [sameGeometry, Bool.and_eq_true, beq_iff_eq, and_assoc]

theorem Keeps.sameGeometry {kept : List Component} (h : Keeps kept a b) : a.sameGeometry b :=
  sameGeometry_iff.mpr ⟨h.width.symm, h.height.symm, h.depth.symm⟩

/-- No pixel of the first image differs from the one of the second image at its index. Neither sizes
nor marks of alpha are looked at here. -/
def SamePixels (a b : Image) : Prop :=
  ∀ i < a.pixelCount, a.pixelAt i = b.pixelAt i

theorem firstDifferentIndex?_eq_none : a.firstDifferentIndex? b = none ↔ SamePixels a b := by
  rw [firstDifferentIndex?, List.find?_eq_none]
  constructor
  · intro h i hi
    have hsame := h i (List.mem_range.mpr hi)
    simpa using hsame
  · intro h i hi
    simp [h i (List.mem_range.mp hi)]

theorem firstDifference?_eq_none_iff :
    a.firstDifference? b = none ↔ a.sameGeometry b ∧ a.isNull = b.isNull ∧ SamePixels a b := by
  rw [firstDifference?]
  by_cases hframe : a.sameGeometry b ∧ a.isNull = b.isNull
  · obtain ⟨hgeometry, hnull⟩ := hframe
    rw [if_neg (by simp [hgeometry, hnull]), Option.map_eq_none_iff, firstDifferentIndex?_eq_none]
    exact ⟨fun h => ⟨hgeometry, hnull, h⟩, fun h => h.2.2⟩
  · rw [if_pos]
    · exact iff_of_false (by rintro ⟨⟩) fun h => hframe ⟨h.1, h.2.1⟩
    · rw [not_and_or, Bool.not_eq_true] at hframe
      rcases hframe with hgeometry | hnull
      · rw [hgeometry]
        rfl
      · rw [bne_iff_ne.mpr hnull, Bool.or_true]

/-- A byte is found in the pixel that it belongs to. -/
theorem getElem?_pixelAt (image : Image) (i : Nat) :
    (image.pixelAt (i / image.depth.pixelBytes))[i % image.depth.pixelBytes]?
      = some (image.bytes.getD i 0) := by
  have hk : i % image.depth.pixelBytes < image.depth.pixelBytes :=
    Nat.mod_lt _ image.depth.pixelBytes_pos
  rw [pixelAt, List.getElem?_map, List.getElem?_range hk, Option.map_some, Nat.div_add_mod']

theorem pixelCount_eq (hgeometry : a.sameGeometry b) : a.pixelCount = b.pixelCount := by
  obtain ⟨hwidth, hheight, -⟩ := sameGeometry_iff.mp hgeometry
  rw [pixelCount, pixelCount, dimensions, dimensions, hwidth, hheight]

theorem WellFormed.bytes_size_eq (ha : a.WellFormed) (hb : b.WellFormed)
    (hgeometry : a.sameGeometry b) : a.bytes.size = b.bytes.size := by
  obtain ⟨-, -, hdepth⟩ := sameGeometry_iff.mp hgeometry
  rw [ha.bytes_size, hb.bytes_size, pixelCount_eq hgeometry, hdepth]

theorem WellFormed.isNull_eq (ha : a.WellFormed) (hb : b.WellFormed)
    (hgeometry : a.sameGeometry b) : a.isNull = b.isNull := by
  have hsize := ha.bytes_size_eq hb hgeometry
  rw [isNull, isNull, Bool.eq_iff_iff, Array.isEmpty_iff_size_eq_zero,
    Array.isEmpty_iff_size_eq_zero, hsize]

theorem WellFormed.bytes_eq (ha : a.WellFormed) (hb : b.WellFormed) (hgeometry : a.sameGeometry b)
    (h : SamePixels a b) : a.bytes = b.bytes := by
  obtain ⟨-, -, hdepth⟩ := sameGeometry_iff.mp hgeometry
  refine Array.ext (ha.bytes_size_eq hb hgeometry) fun i hia hib => ?_
  have hpixel : i / a.depth.pixelBytes < a.pixelCount := by
    rw [Nat.div_lt_iff_lt_mul a.depth.pixelBytes_pos, ← ha.bytes_size]
    exact hia
  have hbyte := a.getElem?_pixelAt i
  rw [h _ hpixel, hdepth, b.getElem?_pixelAt, Option.some.injEq] at hbyte
  rwa [Array.getD_eq_getD_getElem?, Array.getD_eq_getD_getElem?, Array.getElem?_eq_getElem hia,
    Array.getElem?_eq_getElem hib, Option.getD_some, Option.getD_some, eq_comm] at hbyte

/-- Well-formed images without a difference are equal, if they agree about alpha. -/
theorem firstDifference?_eq_none (ha : a.WellFormed) (hb : b.WellFormed) :
    a.firstDifference? b = none ↔ a = { b with hasAlpha := a.hasAlpha } := by
  rw [firstDifference?_eq_none_iff]
  constructor
  · rintro ⟨hgeometry, -, hpixels⟩
    have hbytes := ha.bytes_eq hb hgeometry hpixels
    obtain ⟨hwidth, hheight, hdepth⟩ := sameGeometry_iff.mp hgeometry
    cases a
    dsimp only at hwidth hheight hdepth hbytes
    rw [hwidth, hheight, hdepth, hbytes]
  · intro h
    rw [h]
    exact ⟨sameGeometry_iff.mpr ⟨rfl, rfl, rfl⟩, rfl, fun _ _ => rfl⟩

theorem firstDifference?_eq_none_iff_bytes (ha : a.WellFormed) (hb : b.WellFormed)
    (hgeometry : a.sameGeometry b) : a.firstDifference? b = none ↔ a.bytes = b.bytes := by
  obtain ⟨-, -, hdepth⟩ := sameGeometry_iff.mp hgeometry
  rw [firstDifference?_eq_none_iff]
  constructor
  · rintro ⟨-, -, hpixels⟩
    exact ha.bytes_eq hb hgeometry hpixels
  · intro hbytes
    refine ⟨hgeometry, ha.isNull_eq hb hgeometry, fun i _ => ?_⟩
    rw [pixelAt, pixelAt, hdepth, hbytes]

end

end Darkroom.Image
