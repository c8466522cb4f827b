import Darkroom.Image.Rows
import Darkroom.Proofs.Image.WellFormed

/-!
# Rows lie one after the other

An image made of rows of the right size has these rows (`row_withRows`), and a well-formed image is
made of its rows, each of which has that size (`size_row`).
-/

namespace Darkroom.Image

/-! ## Rows put together -/

theorem foldl_append_eq (rows : List Row) (first : Row) :
    rows.foldl (· ++ ·) first = first ++ rows.foldl (· ++ ·) #[] := by
  induction rows generalizing first with
  | nil => simp
  | cons row rows ih =>
      rw [List.foldl_cons, ih, List.foldl_cons, ih (#[] ++ row), Array.empty_append,
        Array.append_assoc]

theorem size_foldl_append {stride : Nat} :
    ∀ {rows : List Row}, (∀ row ∈ rows, row.size = stride) →
      (rows.foldl (· ++ ·) #[]).size = rows.length * stride
  | [], _ => by simp
  | row :: rows, h => by
      have hrest := size_foldl_append fun r hr => h r (List.mem_cons_of_mem _ hr)
      rw [List.foldl_cons, foldl_append_eq, Array.empty_append, Array.size_append, hrest,
        h row List.mem_cons_self, List.length_cons, Nat.succ_mul, Nat.add_comm]

theorem extract_foldl_append {stride : Nat} :
    ∀ {rows : List Row} {y : Nat} {row : Row}, (∀ row ∈ rows, row.size = stride) →
      rows[y]? = some row →
      (rows.foldl (· ++ ·) #[]).extract (y * stride) ((y + 1) * stride) = row
  | [], _, _, _, hy => by cases hy
  | first :: rows, y, row, h, hy => by
      have hfirst := h first List.mem_cons_self
      rw [List.foldl_cons, foldl_append_eq, Array.empty_append, Array.extract_append, hfirst]
      cases y with
      | zero =>
          cases hy
          rw [Nat.zero_mul, Nat.zero_add, Nat.one_mul, Nat.sub_self, ← hfirst, Array.extract_size]
          simp
      | succ y =>
          have hrest := extract_foldl_append (fun r hr => h r (List.mem_cons_of_mem _ hr))
            (by rwa [List.getElem?_cons_succ] at hy)
          rw [Nat.succ_mul, Nat.add_sub_cancel, Nat.succ_mul (y + 1), Nat.add_sub_cancel, hrest,
            Array.extract_eq_empty_of_le, Array.empty_append]
          rw [hfirst, Nat.min_eq_right (Nat.le_add_left _ _)]
          exact Nat.le_add_left _ _

theorem row_withRows {image : Image} {rows : List Row}
    (h : ∀ row ∈ rows, row.size = image.rowBytes) {y : Nat} {row : Row} (hy : rows[y]? = some row) :
    (image.withRows rows).row y = row :=
  extract_foldl_append h hy

theorem size_withRows {image : Image} {rows : List Row}
    (h : ∀ row ∈ rows, row.size = image.rowBytes) :
    (image.withRows rows).bytes.size = rows.length * image.rowBytes :=
  size_foldl_append h

/-! ## The rows of an image -/

@[simp]
theorem length_rows (image : Image) : image.rows.length = image.height.toNat := by
  rw [rows, List.length_map, List.length_range]

theorem getElem?_rows {image : Image} {y : Nat} (hy : y < image.height.toNat) :
    image.rows[y]? = some (image.row y) := by
  rw [rows, List.getElem?_map, List.getElem?_range hy, Option.map_some]

theorem of_getElem?_rows {image : Image} {y : Nat} {row : Row} (h : image.rows[y]? = some row) :
    y < image.height.toNat ∧ row = image.row y := by
  have hy : y < image.height.toNat := by
    rw [← length_rows]
    exact (List.getElem?_eq_some_iff.mp h).1
  rw [getElem?_rows hy] at h
  exact ⟨hy, (Option.some.inj h).symm⟩

theorem WellFormed.bytes_size_eq_rows {image : Image} (h : image.WellFormed) :
    image.bytes.size = image.height.toNat * image.rowBytes := by
  rw [h.bytes_size, pixelCount, dimensions, Dimensions.pixels, rowBytes,
    Nat.mul_comm image.width.toNat, Nat.mul_assoc]

theorem WellFormed.size_row {image : Image} (h : image.WellFormed) {y : Nat}
    (hy : y < image.height.toNat) : (image.row y).size = image.rowBytes := by
  have hle : (y + 1) * image.rowBytes ≤ image.bytes.size := by
    rw [h.bytes_size_eq_rows]
    exact Nat.mul_le_mul_right _ hy
  rw [row, Array.size_extract, Nat.min_eq_left hle, Nat.succ_mul, Nat.add_sub_cancel_left]

theorem WellFormed.height_pos {image : Image} (h : image.WellFormed)
    (hnull : image.isNull = false) : 0 < image.height.toNat := by
  rcases h with rfl | ⟨-, hh, -⟩
  · cases hnull
  · exact UInt32.lt_iff_toNat_lt.mp hh

end Darkroom.Image
