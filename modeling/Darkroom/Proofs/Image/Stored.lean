import Darkroom.Proofs.Image.Pixels

/-!
# Pixels as they are stored

A depth keeps of a value what its bytes can hold. So an image shows of any new pixels, whether they
fit or not, what the depth keeps of them (`WellFormed.pixel_mapPixels_stored`), and new pixels of
which it keeps the same are the same image (`WellFormed.mapPixels_congr`).
-/

namespace Darkroom

/-- What a depth keeps of a value. Of 16 bits it keeps all, of 8 bits the lower byte, so a value
that is too large comes back as another one. -/
def Depth.stored (depth : Depth) (v : UInt16) : UInt16 :=
  UInt16.ofNat (v.toNat % depth.segments)

theorem Depth.stored_of_le {depth : Depth} {v : UInt16} (h : v.toNat ≤ depth.maxValue) :
    depth.stored v = v := by
  have hlt : v.toNat < depth.segments := Nat.lt_succ_of_le h
  rw [stored, Nat.mod_eq_of_lt hlt, UInt16.ofNat_toNat]

theorem Depth.stored_eight (v : UInt16) : Depth.eight.stored v = v.toUInt8.toUInt16 := by
  apply UInt16.toNat_inj.mp
  have hlt : v.toNat % eight.segments < UInt16.size :=
    Nat.lt_trans (Nat.mod_lt _ (by decide)) (by decide : eight.segments < UInt16.size)
  rw [stored, UInt8.toNat_toUInt16, UInt16.toNat_toUInt8]
  exact UInt16.toNat_ofNat_of_lt' hlt

theorem Depth.stored_le (depth : Depth) (v : UInt16) : (depth.stored v).toNat ≤ depth.maxValue := by
  have hlt : v.toNat % depth.segments < depth.segments := Nat.mod_lt _ (Nat.succ_pos _)
  have hsize : depth.segments ≤ UInt16.size := by cases depth <;> decide
  rw [stored, UInt16.toNat_ofNat_of_lt' (Nat.lt_of_lt_of_le hlt hsize)]
  exact Nat.le_of_lt_succ hlt

theorem Depth.stored_stored (depth : Depth) (v : UInt16) :
    depth.stored (depth.stored v) = depth.stored v :=
  stored_of_le (depth.stored_le v)

namespace Pixel

def stored (depth : Depth) (p : Pixel) : Pixel :=
  p.map depth.stored

variable {depth : Depth} {p : Pixel}

theorem component_stored (depth : Depth) (p : Pixel) (c : Component) :
    (p.stored depth).component c = depth.stored (p.component c) := by
  cases c <;> rfl

theorem stored_of_fits (h : p.Fits depth) : p.stored depth = p :=
  ext_component fun c => by rw [component_stored, Depth.stored_of_le (h c)]

theorem stored_stored (depth : Depth) (p : Pixel) :
    (p.stored depth).stored depth = p.stored depth :=
  ext_component fun c => by simp only [component_stored, Depth.stored_stored]

/-- Bytes of a pixel are read as what is kept of it. -/
theorem read_eq_stored {data : Array UInt8} {start : Nat}
    (h : ∀ k < depth.pixelBytes, data.getD (start + k) 0 = p.byte depth k) :
    read depth data start = p.stored depth := by
  cases depth with
  | eight =>
    simp only [read, h 0 (by decide), h 1 (by decide), h 2 (by decide), h 3 (by decide)]
    exact ext_component fun c => by
      rw [component_stored, Depth.stored_eight]
      cases c <;> rfl
  | sixteen =>
    rw [stored_of_fits fun c => Nat.le_of_lt_succ (UInt16.toNat_lt _)]
    exact read_of_bytes (fun c => Nat.le_of_lt_succ (UInt16.toNat_lt _)) h

end Pixel

namespace Image

variable {image : Image} {f g : Nat → Nat → Pixel} {x y : Nat}

theorem stored_pixel (image : Image) (x y : Nat) :
    (image.pixel x y).stored image.depth = image.pixel x y :=
  Pixel.stored_of_fits (image.fits_pixel x y)

theorem WellFormed.pixel_mapPixels_stored (h : image.WellFormed) (f : Nat → Nat → Pixel)
    (hx : x < image.width.toNat) (hy : y < image.height.toNat) :
    (image.mapPixels f).pixel x y = (f x y).stored image.depth := by
  have hread : Pixel.read image.depth
      (pixelBytes image.width.toNat image.height.toNat image.depth f)
      ((y * image.width.toNat + x) * image.depth.pixelBytes) = (f x y).stored image.depth :=
    Pixel.read_eq_stored fun k hk => by
      rw [Array.getD_eq_getD_getElem?, getElem?_pixelBytes_at hx hy hk, Option.getD_some]
  rw [h.mapPixels_eq]
  exact hread

theorem WellFormed.mapPixels_congr (h : image.WellFormed)
    (hsame : ∀ x < image.width.toNat, ∀ y < image.height.toNat,
      (f x y).stored image.depth = (g x y).stored image.depth) :
    image.mapPixels f = image.mapPixels g :=
  (h.frame_mapPixels f).ext_pixels (h.frame_mapPixels g) (h.mapPixels f) (h.mapPixels g)
    fun x hx y hy => by
      rw [h.pixel_mapPixels_stored f hx hy, h.pixel_mapPixels_stored g hx hy, hsame x hx y hy]

/-- New pixels that an image shows already. -/
theorem WellFormed.mapPixels_eq_self (h : image.WellFormed)
    (hsame : ∀ x < image.width.toNat, ∀ y < image.height.toNat,
      (f x y).stored image.depth = image.pixel x y) : image.mapPixels f = image :=
  (h.frame_mapPixels f).ext_pixels (.refl [] image) (h.mapPixels f) h fun x hx y hy => by
    rw [h.pixel_mapPixels_stored f hx hy, hsame x hx y hy]

end Image

end Darkroom
