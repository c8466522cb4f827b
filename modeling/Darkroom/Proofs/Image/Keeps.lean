import Darkroom.Proofs.Image.Rows
import Darkroom.Tone.PerChannel
import Mathlib.Data.List.Forall2

/-!
# What a change leaves alone

`Image.Keeps kept old new` says that an image was changed inside its frame, and that the bytes of the
components in `kept` are what they were in every pixel. It is stated about bytes, so it does not
depend on how pixels are read. Changes can be put one after the other (`Keeps.trans`), and there are
only two kinds to look at: work on rows, pixel by pixel (`keeps_processRows`), and new pixels at given
positions (`keeps_mapPixels`). Both keep a component if the pixel function does.
-/

namespace Darkroom

/-! ## Bytes of components -/

/-- The component that the byte at an index belongs to, where pixels start at zero. It depends on
the rest of the index by the size of a pixel only. -/
def Depth.componentAt (depth : Depth) (i : Nat) : Component :=
  match (match depth with | .eight => i | .sixteen => i / 2) % 4 with
  | 0 => .blue
  | 1 => .green
  | 2 => .red
  | _ => .alpha

def Pixel.component (p : Pixel) : Component → UInt16
  | .red => p.red
  | .green => p.green
  | .blue => p.blue
  | .alpha => p.alpha

theorem Depth.pixelBytes_pos (depth : Depth) : 0 < depth.pixelBytes := by
  cases depth <;> decide

theorem Depth.componentAt_add_mul (depth : Depth) (i n : Nat) :
    depth.componentAt (i + n * depth.pixelBytes) = depth.componentAt i := by
  cases depth with
  | eight =>
      have hplace : (i + n * 4) % 4 = i % 4 := by omega
      simp only [componentAt, pixelBytes, hplace]
  | sixteen =>
      have hplace : (i + n * 8) / 2 % 4 = i / 2 % 4 := by omega
      simp only [componentAt, pixelBytes, hplace]

theorem Depth.componentAt_mod (depth : Depth) (i : Nat) :
    depth.componentAt (i % depth.pixelBytes) = depth.componentAt i := by
  have hsplit : i = i % depth.pixelBytes + i / depth.pixelBytes * depth.pixelBytes := by
    rw [Nat.mul_comm, Nat.mod_add_div]
  rw [← componentAt_add_mul depth (i % depth.pixelBytes) (i / depth.pixelBytes), ← hsplit]

namespace Pixel

theorem toUInt8_word (low high : UInt8) : (word low high).toUInt8 = low := by
  apply UInt8.toBitVec_inj.mp
  simp [word]

theorem toUInt8_word_high (low high : UInt8) : (word low high >>> 8).toUInt8 = high := by
  apply UInt8.toBitVec_inj.mp
  simp only [word, UInt16.toBitVec_toUInt8, UInt16.toBitVec_shiftRight, UInt16.toBitVec_or,
    UInt8.toBitVec_toUInt16, UInt16.toBitVec_shiftLeft]
  ext i hi
  simp [show i < 16 by omega, show 8 + i < 16 by omega, BitVec.getLsbD_eq_getElem hi]

/-- A byte of a pixel depends on the component that it belongs to only. -/
theorem byte_congr {depth : Depth} {p q : Pixel} {k : Nat} (hk : k < depth.pixelBytes)
    (h : p.component (depth.componentAt k) = q.component (depth.componentAt k)) :
    p.byte depth k = q.byte depth k := by
  cases depth with
  | eight =>
      have hk : k = 0 ∨ k = 1 ∨ k = 2 ∨ k = 3 := by
        simp only [Depth.pixelBytes] at hk
        omega
      rcases hk with rfl | rfl | rfl | rfl <;> exact congrArg UInt16.toUInt8 h
  | sixteen =>
      have hk : k = 0 ∨ k = 1 ∨ k = 2 ∨ k = 3 ∨ k = 4 ∨ k = 5 ∨ k = 6 ∨ k = 7 := by
        simp only [Depth.pixelBytes] at hk
        omega
      rcases hk with rfl | rfl | rfl | rfl | rfl | rfl | rfl | rfl
      · exact congrArg UInt16.toUInt8 h
      · exact congrArg (fun v : UInt16 => (v >>> 8).toUInt8) h
      · exact congrArg UInt16.toUInt8 h
      · exact congrArg (fun v : UInt16 => (v >>> 8).toUInt8) h
      · exact congrArg UInt16.toUInt8 h
      · exact congrArg (fun v : UInt16 => (v >>> 8).toUInt8) h
      · exact congrArg UInt16.toUInt8 h
      · exact congrArg (fun v : UInt16 => (v >>> 8).toUInt8) h

/-- The bytes of a pixel that was read are those that it was read from. -/
theorem byte_read (depth : Depth) (data : Array UInt8) (start : Nat) {k : Nat}
    (hk : k < depth.pixelBytes) : (read depth data start).byte depth k = data.getD (start + k) 0 := by
  cases depth with
  | eight =>
      have hk : k = 0 ∨ k = 1 ∨ k = 2 ∨ k = 3 := by
        simp only [Depth.pixelBytes] at hk
        omega
      rcases hk with rfl | rfl | rfl | rfl <;> simp [byte, read, channel]
  | sixteen =>
      have hk : k = 0 ∨ k = 1 ∨ k = 2 ∨ k = 3 ∨ k = 4 ∨ k = 5 ∨ k = 6 ∨ k = 7 := by
        simp only [Depth.pixelBytes] at hk
        omega
      rcases hk with rfl | rfl | rfl | rfl | rfl | rfl | rfl | rfl <;>
        simp [byte, read, channel, toUInt8_word, toUInt8_word_high]

end Pixel

namespace Image

/-! ## Frames -/

/-- The second image has the frame of the first, and the bytes of the kept components. Nothing is
said of the other bytes, so it can be shown for a filter without knowing what the filter
computes. -/
structure Keeps (kept : List Component) (old new : Image) : Prop where
  width : new.width = old.width
  height : new.height = old.height
  depth : new.depth = old.depth
  hasAlpha : new.hasAlpha = old.hasAlpha
  size : new.bytes.size = old.bytes.size
  bytes : ∀ i, old.depth.componentAt i ∈ kept → new.bytes[i]? = old.bytes[i]?

namespace Keeps

variable {kept : List Component} {old middle new : Image}

theorem refl (kept : List Component) (image : Image) : Keeps kept image image :=
  ⟨rfl, rfl, rfl, rfl, rfl, fun _ _ => rfl⟩

theorem trans (h : Keeps kept old middle) (h' : Keeps kept middle new) : Keeps kept old new where
  width := h'.width.trans h.width
  height := h'.height.trans h.height
  depth := h'.depth.trans h.depth
  hasAlpha := h'.hasAlpha.trans h.hasAlpha
  size := h'.size.trans h.size
  bytes i hi := (h'.bytes i (h.depth ▸ hi)).trans (h.bytes i hi)

/-- What is left when nothing is asked of the bytes. -/
theorem frame (h : Keeps kept old new) : Keeps [] old new :=
  ⟨h.width, h.height, h.depth, h.hasAlpha, h.size, fun _ hi => absurd hi List.not_mem_nil⟩

theorem dimensions (h : Keeps kept old new) : new.dimensions = old.dimensions :=
  congrArg₂ Dimensions.mk h.width h.height

theorem isNull (h : Keeps kept old new) : new.isNull = old.isNull := by
  rw [Bool.eq_iff_iff, Image.isNull, Image.isNull, Array.isEmpty_iff_size_eq_zero,
    Array.isEmpty_iff_size_eq_zero, h.size]

theorem wellFormed (h : Keeps kept old new) (hwf : old.WellFormed) (hnull : old.isNull = false) :
    new.WellFormed :=
  hwf.of_frame hnull h.width h.height h.depth h.size

end Keeps

/-! ## Rows -/

/-- What a change of a row leaves alone. Rows begin with a pixel, so the component of a byte is told
by its index in the row. -/
structure KeepsRow (depth : Depth) (kept : List Component) (old new : Row) : Prop where
  size : new.size = old.size
  bytes : ∀ j, depth.componentAt j ∈ kept → new[j]? = old[j]?

theorem keepsRow_pixelOp {depth : Depth} {kept : List Component} {f : Pixel → Pixel}
    (hf : ∀ c ∈ kept, ∀ p, (f p).component c = p.component c) (y : Nat) (row : Row) :
    KeepsRow depth kept row (pixelOp depth f y row) := by
  have hsize : (pixelOp depth f y row).size = row.size := Array.size_ofFn
  refine ⟨hsize, fun j hj => ?_⟩
  by_cases hlt : j < row.size
  · have hk : j % depth.pixelBytes < depth.pixelBytes := Nat.mod_lt _ depth.pixelBytes_pos
    have hsame : j / depth.pixelBytes * depth.pixelBytes + j % depth.pixelBytes = j := by
      rw [Nat.mul_comm, Nat.div_add_mod]
    rw [← Depth.componentAt_mod] at hj
    rw [Array.getElem?_eq_getElem (hsize ▸ hlt), Array.getElem?_eq_getElem hlt]
    simp only [pixelOp, Array.getElem_ofFn]
    rw [Pixel.byte_congr hk (hf _ hj _), Pixel.byte_read _ _ _ hk, hsame,
      Array.getD_eq_getD_getElem?, Array.getElem?_eq_getElem hlt, Option.getD_some]
  · rw [Array.getElem?_eq_none (by omega), Array.getElem?_eq_none (by omega)]

/-- Whatever is left out by cancellation, each row is kept as far as `op` keeps rows. -/
theorem keepsRow_run {depth : Depth} {kept : List Component} {height : Nat} {band : Band}
    {op : RowOp} (hop : ∀ y row, KeepsRow depth kept row (op y row)) :
    ∀ {rows : List Row} {work : RowWork} {y : Nat},
      List.Forall₂ (KeepsRow depth kept) rows (work.run height band op y rows).2
  | [], _, _ => .nil
  | row :: rows, work, y => by
      rw [RowWork.run]
      refine .cons ?_ (keepsRow_run hop)
      rw [RowWork.row]
      split
      · exact hop y row
      · exact ⟨rfl, fun _ _ => rfl⟩

/-- A byte of an image, found in its row. -/
theorem getElem?_bytes {image : Image} (h : image.WellFormed) {i : Nat} (hi : i < image.bytes.size) :
    i / image.rowBytes < image.height.toNat
      ∧ image.bytes[i]? = (image.row (i / image.rowBytes))[i % image.rowBytes]? := by
  rw [h.bytes_size_eq_rows] at hi
  have hpos : 0 < image.rowBytes := by
    rw [Nat.pos_iff_ne_zero]
    intro hzero
    rw [hzero, Nat.mul_zero] at hi
    omega
  have hy : i / image.rowBytes < image.height.toNat := Nat.div_lt_of_lt_mul (by rwa [Nat.mul_comm])
  have hj := Nat.mod_lt i hpos
  have hsame : i / image.rowBytes * image.rowBytes + i % image.rowBytes = i := by
    rw [Nat.mul_comm, Nat.div_add_mod]
  refine ⟨hy, ?_⟩
  have hend : (i / image.rowBytes + 1) * image.rowBytes ≤ image.bytes.size := by
    rw [h.bytes_size_eq_rows]
    exact Nat.mul_le_mul_right _ hy
  rw [row, Array.getElem?_extract, hsame, if_pos]
  rw [Nat.min_eq_left hend, Nat.succ_mul]
  omega

theorem componentAt_mod_rowBytes (image : Image) (i : Nat) :
    image.depth.componentAt (i % image.rowBytes) = image.depth.componentAt i := by
  have hsplit : i = i % image.rowBytes
      + i / image.rowBytes * image.width.toNat * image.depth.pixelBytes := by
    rw [Nat.mul_assoc, ← rowBytes, Nat.mul_comm, Nat.mod_add_div]
  rw [← Depth.componentAt_add_mul image.depth (i % image.rowBytes)
    (i / image.rowBytes * image.width.toNat), ← hsplit]

theorem keeps_withRows {image : Image} {kept : List Component} {rows : List Row}
    (hwf : image.WellFormed) (hnull : image.isNull = false)
    (h : List.Forall₂ (KeepsRow image.depth kept) image.rows rows) :
    Keeps kept image (image.withRows rows) := by
  have hlength : rows.length = image.height.toNat := by
    rw [← h.length_eq, length_rows]
  have hrow : ∀ y < image.height.toNat, ∃ row, rows[y]? = some row
      ∧ KeepsRow image.depth kept (image.row y) row := by
    intro y hy
    have hy' : y < rows.length := hlength ▸ hy
    refine ⟨rows[y], List.getElem?_eq_getElem hy', ?_⟩
    have hkeeps := h.get (i := y) (by rwa [length_rows]) hy'
    have hold : image.rows.get ⟨y, by rwa [length_rows]⟩ = image.row y := by
      simp [Image.rows]
    rwa [hold] at hkeeps
  have hstride : ∀ row ∈ rows, row.size = image.rowBytes := by
    intro row hmem
    obtain ⟨y, hy⟩ := List.mem_iff_getElem?.mp hmem
    have hlt : y < image.height.toNat := hlength ▸ (List.getElem?_eq_some_iff.mp hy).1
    obtain ⟨row', hrow', hkeeps⟩ := hrow y hlt
    rw [hy, Option.some.injEq] at hrow'
    rw [hrow', hkeeps.size, hwf.size_row hlt]
  have hsize : (image.withRows rows).bytes.size = image.bytes.size := by
    rw [size_withRows hstride, hlength, hwf.bytes_size_eq_rows]
  have hnew : (image.withRows rows).WellFormed := hwf.of_frame hnull rfl rfl rfl hsize
  refine ⟨rfl, rfl, rfl, rfl, hsize, fun i hi => ?_⟩
  by_cases hlt : i < image.bytes.size
  · obtain ⟨hy, hold⟩ := getElem?_bytes hwf hlt
    obtain ⟨-, hbyte⟩ := getElem?_bytes hnew (hsize ▸ hlt)
    have hframe : (image.withRows rows).rowBytes = image.rowBytes := rfl
    obtain ⟨row, hget, hkeeps⟩ := hrow _ hy
    rw [← componentAt_mod_rowBytes] at hi
    rw [hold, hbyte, hframe, row_withRows hstride hget, hkeeps.bytes _ hi]
  · rw [Array.getElem?_eq_none (by omega), Array.getElem?_eq_none (by omega)]

/-- Work on rows that changes every pixel alike keeps what the function of pixels keeps. -/
theorem keeps_processRows {image : Image} {kept : List Component} {f : Pixel → Pixel}
    (hwf : image.WellFormed) (hnull : image.isNull = false)
    (hf : ∀ c ∈ kept, ∀ p, (f p).component c = p.component c) (p : Progress) (band : Band) :
    Keeps kept image (image.processRows p band (pixelOp image.depth f)).1 := by
  rw [processRows, hnull, if_neg Bool.false_ne_true]
  exact keeps_withRows hwf hnull (keepsRow_run fun y row => keepsRow_pixelOp hf y row)

/-! ## Pixels -/

/-- New pixels keep what they share with the old ones. -/
theorem keeps_mapPixels {image : Image} {kept : List Component} {f : Nat → Nat → Pixel}
    (hwf : image.WellFormed)
    (hf : ∀ c ∈ kept, ∀ x y, (f x y).component c = (image.pixel x y).component c) :
    Keeps kept image (image.mapPixels f) := by
  rw [mapPixels]
  split
  · exact .refl kept image
  have hsize : (pixelBytes image.width.toNat image.height.toNat image.depth f).size
      = image.bytes.size := by
    rw [size_pixelBytes, hwf.bytes_size, pixelCount, dimensions, Dimensions.pixels]
  refine ⟨rfl, rfl, rfl, rfl, hsize, fun i hi => ?_⟩
  dsimp only
  by_cases hlt : i < image.bytes.size
  · have hk : i % image.depth.pixelBytes < image.depth.pixelBytes :=
      Nat.mod_lt _ image.depth.pixelBytes_pos
    have hoffset : image.offset (i / image.depth.pixelBytes % image.width.toNat)
        (i / image.depth.pixelBytes / image.width.toNat) + i % image.depth.pixelBytes = i := by
      rw [offset, Nat.mul_comm (_ / image.width.toNat), Nat.div_add_mod, Nat.mul_comm,
        Nat.div_add_mod]
    rw [← Depth.componentAt_mod] at hi
    rw [Array.getElem?_eq_getElem (hsize ▸ hlt), Array.getElem?_eq_getElem hlt]
    simp only [pixelBytes, Array.getElem_ofFn]
    rw [Pixel.byte_congr hk (hf _ hi _ _), pixel, Pixel.byte_read _ _ _ hk, hoffset,
      Array.getD_eq_getD_getElem?, Array.getElem?_eq_getElem hlt, Option.getD_some]
  · rw [Array.getElem?_eq_none (by omega), Array.getElem?_eq_none (by omega)]

end Image

end Darkroom
