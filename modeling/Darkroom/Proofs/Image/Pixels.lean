import Darkroom.Proofs.Image.Checked

/-!
# Images by their pixels

A pixel whose channels are values of a depth comes back from the bytes that it is stored as
(`Pixel.read_of_bytes`), and every pixel that was read is such a pixel (`Pixel.fits_read`). So a new
image shows the pixels that it was made of (`pixel_ofPixels`, `WellFormed.pixel_mapPixels`), and a
well-formed image is known by its frame and its pixels (`WellFormed.ext_pixels`).
-/

namespace Darkroom

/-! ## Pixels and their bytes -/

namespace Pixel

/-- Whether every channel of a pixel is a value of a depth. What is read from an image is; of what
is stored, only such a pixel is read back unchanged. -/
def Fits (depth : Depth) (p : Pixel) : Prop :=
  ∀ c : Component, (p.component c).toNat ≤ depth.maxValue

theorem ext_component {p q : Pixel} (h : ∀ c, p.component c = q.component c) : p = q := by
  cases p
  cases q
  rw [Pixel.mk.injEq]
  exact ⟨h .blue, h .green, h .red, h .alpha⟩

/-- A value that a byte can hold is not cut off. -/
theorem toUInt16_toUInt8 {v : UInt16} (h : v.toNat ≤ 255) : v.toUInt8.toUInt16 = v := by
  apply UInt16.toNat_inj.mp
  rw [UInt8.toNat_toUInt16, UInt16.toNat_toUInt8]
  omega

theorem word_bytes (v : UInt16) : word v.toUInt8 (v >>> 8).toUInt8 = v := by
  apply UInt16.toBitVec_inj.mp
  simp only [word, UInt16.toBitVec_or, UInt8.toBitVec_toUInt16, UInt16.toBitVec_toUInt8,
    UInt16.toBitVec_shiftLeft, UInt16.toBitVec_shiftRight]
  ext i hi
  simp
  grind

theorem fits_read (depth : Depth) (data : Array UInt8) (start : Nat) :
    (read depth data start).Fits depth := by
  intro c
  cases depth with
  | eight =>
    have hbyte : ∀ b : UInt8, b.toUInt16.toNat ≤ 255 := fun b => by
      rw [UInt8.toNat_toUInt16]
      exact Nat.le_of_lt_succ b.toNat_lt
    cases c <;> exact hbyte _
  | sixteen => exact Nat.le_of_lt_succ (UInt16.toNat_lt _)

/-- A pixel that fits is read back from its bytes. -/
theorem read_of_bytes {depth : Depth} {p : Pixel} (hp : p.Fits depth) {data : Array UInt8}
    {start : Nat} (h : ∀ k < depth.pixelBytes, data.getD (start + k) 0 = p.byte depth k) :
    read depth data start = p := by
  cases depth with
  | eight =>
    have hvalue : ∀ c, (p.component c).toUInt8.toUInt16 = p.component c :=
      fun c => toUInt16_toUInt8 (hp c)
    simp only [read, h 0 (by decide), h 1 (by decide), h 2 (by decide), h 3 (by decide)]
    refine ext_component fun c => ?_
    cases c with
    | red => exact hvalue .red
    | green => exact hvalue .green
    | blue => exact hvalue .blue
    | alpha => exact hvalue .alpha
  | sixteen =>
    simp only [read, h 0 (by decide), h 1 (by decide), h 2 (by decide), h 3 (by decide),
      h 4 (by decide), h 5 (by decide), h 6 (by decide), h 7 (by decide)]
    exact ext_component fun c => by cases c <;> exact word_bytes _

end Pixel

namespace Image

/-! ## New pixels -/

variable {image a b c : Image}

theorem pixelBytes_congr {w h : Nat} {depth : Depth} {f g : Nat → Nat → Pixel}
    (hsame : ∀ x < w, ∀ y < h, f x y = g x y) :
    pixelBytes w h depth f = pixelBytes w h depth g := by
  refine Bytes.eq_of_getElem? (by rw [size_pixelBytes, size_pixelBytes]) fun i hi => ?_
  rw [size_pixelBytes] at hi
  obtain ⟨hx, hy⟩ := place_lt ((Nat.div_lt_iff_lt_mul depth.pixelBytes_pos).mpr hi)
  rw [getElem?_pixelBytes hi, getElem?_pixelBytes hi, hsame _ hx _ hy]

/-- A pixel that fits, read from where it was put. -/
theorem read_pixelBytes {w h x y : Nat} {depth : Depth} {f : Nat → Nat → Pixel} (hx : x < w)
    (hy : y < h) (hf : (f x y).Fits depth) :
    Pixel.read depth (pixelBytes w h depth f) ((y * w + x) * depth.pixelBytes) = f x y := by
  refine Pixel.read_of_bytes hf fun k hk => ?_
  rw [Array.getD_eq_getD_getElem?, getElem?_pixelBytes_at hx hy hk, Option.getD_some]

theorem fits_pixel (image : Image) (x y : Nat) : (image.pixel x y).Fits image.depth :=
  Pixel.fits_read _ _ _

/-- An image in whose frame other pixels were put shows them. -/
theorem WellFormed.pixel_mapPixels (h : image.WellFormed) {f : Nat → Nat → Pixel} {x y : Nat}
    (hx : x < image.width.toNat) (hy : y < image.height.toNat) (hf : (f x y).Fits image.depth) :
    (image.mapPixels f).pixel x y = f x y := by
  rw [h.mapPixels_eq]
  exact read_pixelBytes hx hy hf

theorem WellFormed.frame_mapPixels (h : image.WellFormed) (f : Nat → Nat → Pixel) :
    Keeps [] image (image.mapPixels f) :=
  keeps_mapPixels h fun _ hc => absurd hc List.not_mem_nil

/-! ## Room for pixels -/

/-- Fewer pixels take fewer bytes. -/
theorem byteLength?_of_le {d d' : Dimensions} {depth : Depth} (hlen : (byteLength? d depth).isSome)
    (hd : d'.pixels ≤ d.pixels) : (byteLength? d' depth).isSome := by
  obtain ⟨n, hn⟩ := Option.isSome_iff_exists.mp hlen
  obtain ⟨rfl, hlt⟩ := byteLength?_eq_some.mp hn
  have hle : d'.pixels * depth.pixelBytes ≤ d.pixels * depth.pixelBytes :=
    Nat.mul_le_mul_right _ hd
  exact Option.isSome_iff_exists.mpr ⟨_, byteLength?_eq_some.mpr ⟨rfl, by omega⟩⟩

theorem ofPixels_eq {d : Dimensions} {depth : Depth} (hlen : (byteLength? d depth).isSome)
    (hpos : 0 < d.pixels) (hasAlpha : Bool) (f : Nat → Nat → Pixel) :
    ofPixels d depth hasAlpha f
      = ⟨d.width, d.height, depth, hasAlpha, pixelBytes d.width.toNat d.height.toNat depth f⟩ := by
  obtain ⟨n, hn⟩ := Option.isSome_iff_exists.mp hlen
  obtain ⟨rfl, -⟩ := byteLength?_eq_some.mp hn
  simp only [ofPixels, hn, if_neg (Nat.ne_of_gt (Nat.mul_pos hpos depth.pixelBytes_pos))]

theorem ofPixels_of_pixels_eq_zero {d : Dimensions} (hzero : d.pixels = 0) (depth : Depth)
    (hasAlpha : Bool) (f : Nat → Nat → Pixel) : ofPixels d depth hasAlpha f = null := by
  rw [ofPixels, byteLength?, hzero, Nat.zero_mul]
  rfl

theorem WellFormed.isSome_byteLength (h : image.WellFormed) :
    (byteLength? image.dimensions image.depth).isSome := by
  rcases h with rfl | ⟨-, -, hlen⟩
  · rfl
  · rw [hlen]
    rfl

theorem WellFormed.size_lt (h : image.WellFormed) : image.bytes.size < 0x8000000000000000 := by
  rcases h with rfl | ⟨-, -, hlen⟩
  · decide
  · exact (byteLength?_eq_some.mp hlen).2

/-- An image is null if it has no pixels. -/
theorem WellFormed.isNull_eq_false_iff (h : image.WellFormed) :
    image.isNull = false ↔ 0 < image.pixelCount := by
  rw [isNull, Array.isEmpty_eq_false_iff, ne_eq, ← Array.size_eq_zero_iff, h.bytes_size,
    Nat.mul_eq_zero, not_or, Nat.pos_iff_ne_zero]
  exact and_iff_left (Nat.ne_of_gt image.depth.pixelBytes_pos)

theorem pixel_ofPixels {d : Dimensions} {depth : Depth} {hasAlpha : Bool} {f : Nat → Nat → Pixel}
    (hlen : (byteLength? d depth).isSome) {x y : Nat} (hx : x < d.width.toNat)
    (hy : y < d.height.toNat) (hf : (f x y).Fits depth) :
    (ofPixels d depth hasAlpha f).pixel x y = f x y := by
  rw [ofPixels_eq hlen (Nat.mul_pos (by omega) (by omega))]
  exact read_pixelBytes hx hy hf

/-! ## Equal images -/

/-- The frame of an image: all of it but the bytes. Operations on pixels keep it, so what they do is
said by the pixels alone. -/
def SameFrame (a b : Image) : Prop :=
  a.dimensions = b.dimensions ∧ a.depth = b.depth ∧ a.hasAlpha = b.hasAlpha

theorem SameFrame.symm (h : a.SameFrame b) : b.SameFrame a :=
  ⟨h.1.symm, h.2.1.symm, h.2.2.symm⟩

theorem SameFrame.trans (h : a.SameFrame b) (h' : b.SameFrame c) : a.SameFrame c :=
  ⟨h.1.trans h'.1, h.2.1.trans h'.2.1, h.2.2.trans h'.2.2⟩

theorem SameFrame.width (h : a.SameFrame b) : a.width = b.width :=
  (Dimensions.mk.inj h.1).1

theorem SameFrame.height (h : a.SameFrame b) : a.height = b.height :=
  (Dimensions.mk.inj h.1).2

theorem WellFormed.sameFrame_mapPixels (h : image.WellFormed) (f : Nat → Nat → Pixel) :
    (image.mapPixels f).SameFrame image :=
  have hkeeps := h.frame_mapPixels f
  ⟨hkeeps.dimensions, hkeeps.depth, hkeeps.hasAlpha⟩

/-- Well-formed images of one size and depth have the same bytes if they have the same pixels. -/
theorem WellFormed.bytes_eq_of_pixels (ha : a.WellFormed) (hb : b.WellFormed)
    (hdimensions : a.dimensions = b.dimensions) (hdepth : a.depth = b.depth)
    (h : ∀ x < a.width.toNat, ∀ y < a.height.toNat, a.pixel x y = b.pixel x y) :
    a.bytes = b.bytes := by
  obtain ⟨hwidth, hheight⟩ := Dimensions.mk.inj hdimensions
  rw [← ha.pixelBytes_pixel, ← hb.pixelBytes_pixel, ← hwidth, ← hheight, ← hdepth]
  exact pixelBytes_congr h

/-- Well-formed images are equal if their frames and pixels are. -/
theorem WellFormed.ext_pixels (ha : a.WellFormed) (hb : b.WellFormed) (hframe : SameFrame a b)
    (h : ∀ x < a.width.toNat, ∀ y < a.height.toNat, a.pixel x y = b.pixel x y) : a = b := by
  obtain ⟨hdimensions, hdepth, halpha⟩ := hframe
  have hbytes := ha.bytes_eq_of_pixels hb hdimensions hdepth h
  obtain ⟨hwidth, hheight⟩ := Dimensions.mk.inj hdimensions
  cases a
  cases b
  simp_all

/-- Two changes of one image are the same if they show the same pixels. -/
theorem Keeps.ext_pixels {kept kept' : List Component} {old : Image} (ha : Keeps kept old a)
    (hb : Keeps kept' old b) (hwa : a.WellFormed) (hwb : b.WellFormed)
    (h : ∀ x < old.width.toNat, ∀ y < old.height.toNat, a.pixel x y = b.pixel x y) : a = b :=
  hwa.ext_pixels hwb
    ⟨ha.dimensions.trans hb.dimensions.symm, ha.depth.trans hb.depth.symm,
      ha.hasAlpha.trans hb.hasAlpha.symm⟩
    fun x hx y hy => h x (ha.width ▸ hx) y (ha.height ▸ hy)

end Image

end Darkroom
