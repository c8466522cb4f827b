import Darkroom.Image.Checked
import Darkroom.Proofs.Image.Bytes
import Darkroom.Proofs.Image.Keeps

/-!
# No index leaves an image

On well-formed images each operation with checked indices gives a result, and it is the image that the
operation itself gives. Both are compared byte by byte: the operation says which pixel a byte of the
result is from, and the loops say which byte they put there.
-/

namespace Darkroom

/-! ## The bytes of a pixel -/

namespace Pixel

theorem size_bytes (depth : Depth) (p : Pixel) : (p.bytes depth).toArray.size = depth.pixelBytes := by
  simp [bytes]

theorem getElem?_bytes {depth : Depth} {i : Nat} (hi : i < depth.pixelBytes) (p : Pixel) :
    (p.bytes depth).toArray[i]? = some (p.byte depth i) := by
  simp [bytes, hi]

theorem slice_eq {depth : Depth} {bytes : Array UInt8} {start : Nat} {p : Pixel}
    (h : start + depth.pixelBytes ≤ bytes.size)
    (hp : ∀ i < depth.pixelBytes, bytes[start + i]? = some (p.byte depth i)) :
    bytes.extract start (start + depth.pixelBytes) = (p.bytes depth).toArray :=
  Bytes.slice_eq h (size_bytes depth p) fun i hi => by rw [hp i hi, getElem?_bytes hi]

theorem read_slice {depth : Depth} {bytes : Array UInt8} {start : Nat}
    (h : start + depth.pixelBytes ≤ bytes.size) :
    read depth (bytes.extract start (start + depth.pixelBytes)) 0 = read depth bytes start := by
  have hbyte : ∀ i < depth.pixelBytes,
      (bytes.extract start (start + depth.pixelBytes)).getD (0 + i) 0
        = bytes.getD (start + i) 0 := by
    intro i hi
    rw [Array.getD_eq_getD_getElem?, Array.getD_eq_getD_getElem?, Nat.zero_add,
      Bytes.getElem?_slice h hi]
  unfold read
  cases depth with
  | eight =>
    dsimp only
    rw [hbyte 0 (by decide), hbyte 1 (by decide), hbyte 2 (by decide), hbyte 3 (by decide)]
  | sixteen =>
    dsimp only
    rw [hbyte 0 (by decide), hbyte 1 (by decide), hbyte 2 (by decide), hbyte 3 (by decide),
      hbyte 4 (by decide), hbyte 5 (by decide), hbyte 6 (by decide), hbyte 7 (by decide)]

end Pixel

namespace Bytes

theorem pixel?_eq {depth : Depth} {bytes : Array UInt8} {start : Nat}
    (h : start + depth.pixelBytes ≤ bytes.size) :
    pixel? depth bytes start = some (Pixel.read depth bytes start) := by
  rw [pixel?, slice?_eq h, Option.map_some, Pixel.read_slice h]

theorem put?_whole {bytes part : Array UInt8} (h : part.size = bytes.size) :
    put? bytes 0 part = some part := by
  have hfit : 0 + part.size ≤ bytes.size := by omega
  obtain ⟨new, hput, hsize, hin, -⟩ := put?_spec hfit
  have hnew : new = part := by
    refine eq_of_getElem? (hsize.trans h.symm) fun i hi => ?_
    rw [← hin i (by omega), Nat.zero_add]
  rw [hput, hnew]

/-- A chunk of one pixel with another pixel in it. -/
theorem putPixel?_whole {depth : Depth} {chunk : Array UInt8} (h : chunk.size = depth.pixelBytes)
    (p : Pixel) : putPixel? depth chunk 0 p = some (p.bytes depth).toArray :=
  put?_whole (by rw [Pixel.size_bytes, h])

end Bytes

namespace Image

open Bytes (Within)

/-! ## Indices of pixels -/

section Indices

variable {w h x y k i n : Nat} {depth : Depth} {f : Nat → Nat → Pixel}

/-- `n` pixels of a row lie in front of the end. -/
theorem line_le (hx : x + n ≤ w) (hy : y < h) : y * w + x + n ≤ w * h := by
  calc y * w + x + n ≤ y * w + w := by omega
    _ = (y + 1) * w := (Nat.succ_mul y w).symm
    _ ≤ h * w := Nat.mul_le_mul_right w hy
    _ = w * h := Nat.mul_comm h w

theorem index_lt (hx : x < w) (hy : y < h) : y * w + x < w * h :=
  line_le (n := 1) hx hy

theorem index_mod (hx : x < w) : (y * w + x) % w = x := by
  rw [Nat.mul_add_mod_self_right, Nat.mod_eq_of_lt hx]

theorem index_div (hx : x < w) : (y * w + x) / w = y := by
  rw [Nat.mul_comm, Nat.mul_add_div (by omega), Nat.div_eq_of_lt hx, Nat.add_zero]

theorem index_of_place : i / w * w + i % w = i := by
  rw [Nat.mul_comm, Nat.div_add_mod]

theorem place_lt (hi : i < w * h) : i % w < w ∧ i / w < h := by
  have hw : 0 < w := by
    rw [Nat.pos_iff_ne_zero]
    rintro rfl
    omega
  exact ⟨Nat.mod_lt _ hw, Nat.div_lt_of_lt_mul hi⟩

theorem chunk_fits {n : Nat} (hk : k < n) (size : Nat) : k * size + size ≤ n * size := by
  rw [← Nat.succ_mul]
  exact Nat.mul_le_mul_right size hk

theorem getElem?_pixelBytes (hi : i < w * h * depth.pixelBytes) :
    (pixelBytes w h depth f)[i]?
      = some ((f (i / depth.pixelBytes % w) (i / depth.pixelBytes / w)).byte depth
          (i % depth.pixelBytes)) := by
  rw [pixelBytes, Array.getElem?_ofFn, dif_pos hi]

theorem getElem?_pixelBytes_chunk (hk : k < w * h) (hi : i < depth.pixelBytes) :
    (pixelBytes w h depth f)[k * depth.pixelBytes + i]?
      = some ((f (k % w) (k / w)).byte depth i) := by
  have hlt : k * depth.pixelBytes + i < w * h * depth.pixelBytes := by
    have := chunk_fits hk depth.pixelBytes
    omega
  rw [getElem?_pixelBytes hlt, index_div hi, index_mod hi]

theorem getElem?_pixelBytes_at (hx : x < w) (hy : y < h) (hi : i < depth.pixelBytes) :
    (pixelBytes w h depth f)[(y * w + x) * depth.pixelBytes + i]?
      = some ((f x y).byte depth i) := by
  rw [getElem?_pixelBytes_chunk (index_lt hx hy) hi, index_mod hx, index_div hx]

theorem slice_pixelBytes (depth : Depth) (f : Nat → Nat → Pixel) (hk : k < w * h) :
    (pixelBytes w h depth f).extract (k * depth.pixelBytes)
        (k * depth.pixelBytes + depth.pixelBytes)
      = ((f (k % w) (k / w)).bytes depth).toArray := by
  refine Pixel.slice_eq ?_ fun i hi => getElem?_pixelBytes_chunk hk hi
  rw [size_pixelBytes]
  exact chunk_fits hk _

theorem line_fits (hx : x + n ≤ w) (hy : y < h) (size : Nat) :
    (y * w + x) * size + n * size ≤ w * h * size := by
  rw [← Nat.add_mul]
  exact Nat.mul_le_mul_right size (line_le hx hy)

/-- The bytes of `n` pixels of a row from column `x` on. -/
theorem getElem?_pixelBytes_line (hx : x + n ≤ w) (hy : y < h) (hi : i < n * depth.pixelBytes) :
    (pixelBytes w h depth f)[(y * w + x) * depth.pixelBytes + i]?
      = some ((f (x + i / depth.pixelBytes) y).byte depth (i % depth.pixelBytes)) := by
  have hc : i / depth.pixelBytes < n := Nat.div_lt_of_lt_mul (by rwa [Nat.mul_comm])
  have hcolumn : x + i / depth.pixelBytes < w := by omega
  have hindex : (y * w + x) * depth.pixelBytes + i
      = (y * w + (x + i / depth.pixelBytes)) * depth.pixelBytes + i % depth.pixelBytes := by
    conv_lhs => rw [← Nat.div_add_mod' i depth.pixelBytes]
    rw [← Nat.add_assoc, ← Nat.add_mul, Nat.add_assoc]
  rw [hindex, getElem?_pixelBytes_at hcolumn hy (Nat.mod_lt _ depth.pixelBytes_pos)]

theorem within_line (hx : x + n ≤ w) :
    Within ((y * w + x) * depth.pixelBytes) (n * depth.pixelBytes) i
      ↔ i / depth.pixelBytes / w = y ∧ Within x n (i / depth.pixelBytes % w) := by
  rw [Bytes.within_mul depth.pixelBytes_pos]
  generalize i / depth.pixelBytes = k
  constructor
  · rintro ⟨hlow, hhigh⟩
    have hrow : k / w = y := by
      rw [Nat.div_eq_iff (by omega)]
      omega
    rw [← index_of_place (w := w) (i := k), hrow] at hlow hhigh
    exact ⟨hrow, by omega, by omega⟩
  · rintro ⟨rfl, hlow, hhigh⟩
    rw [Within]
    have := index_of_place (w := w) (i := k)
    omega

end Indices

/-! ## Images with bytes -/

variable {image : Image}

theorem WellFormed.size_eq (h : image.WellFormed) :
    image.bytes.size = image.width.toNat * image.height.toNat * image.depth.pixelBytes :=
  h.bytes_size

theorem WellFormed.width_pos (h : image.WellFormed) (hnull : image.isNull = false) :
    0 < image.width.toNat := by
  rcases h with rfl | ⟨hw, -, -⟩
  · cases hnull
  · exact UInt32.lt_iff_toNat_lt.mp hw

theorem WellFormed.row_fits (h : image.WellFormed) {y : Nat} (hy : y < image.height.toNat) :
    y * image.rowBytes + image.rowBytes ≤ image.bytes.size := by
  rw [h.bytes_size_eq_rows]
  exact chunk_fits hy _

/-- New pixels are new bytes, also when there are none. -/
theorem WellFormed.mapPixels_eq (h : image.WellFormed) (f : Nat → Nat → Pixel) :
    image.mapPixels f
      = { image with bytes := pixelBytes image.width.toNat image.height.toNat image.depth f } := by
  cases hnull : image.isNull with
  | true =>
    rw [h.eq_null hnull]
    rfl
  | false => rw [Image.mapPixels, hnull, if_neg Bool.false_ne_true]

/-- A byte is a byte of its pixel. -/
theorem getElem?_bytes_pixel {i : Nat} (hi : i < image.bytes.size) :
    image.bytes[i]?
      = some ((image.pixel (i / image.depth.pixelBytes % image.width.toNat)
          (i / image.depth.pixelBytes / image.width.toNat)).byte image.depth
          (i % image.depth.pixelBytes)) := by
  have hk : i % image.depth.pixelBytes < image.depth.pixelBytes :=
    Nat.mod_lt _ image.depth.pixelBytes_pos
  rw [pixel, Pixel.byte_read _ _ _ hk, offset, index_of_place, index_of_place,
    Array.getD_eq_getD_getElem?, Array.getElem?_eq_getElem hi, Option.getD_some]

theorem WellFormed.pixel_fits (h : image.WellFormed) {k : Nat}
    (hk : k < image.width.toNat * image.height.toNat) :
    k * image.depth.pixelBytes + image.depth.pixelBytes ≤ image.bytes.size := by
  rw [h.size_eq]
  exact chunk_fits hk _

theorem WellFormed.size_pixelBytes (h : image.WellFormed) (f : Nat → Nat → Pixel) :
    (pixelBytes image.width.toNat image.height.toNat image.depth f).size = image.bytes.size := by
  rw [Image.size_pixelBytes, h.size_eq]

/-- New pixels have the byte of an image where they have its pixel. -/
theorem WellFormed.getElem?_pixelBytes (h : image.WellFormed) {f : Nat → Nat → Pixel} {i : Nat}
    (hi : i < image.bytes.size)
    (hsame : f (i / image.depth.pixelBytes % image.width.toNat)
        (i / image.depth.pixelBytes / image.width.toNat)
      = image.pixel (i / image.depth.pixelBytes % image.width.toNat)
        (i / image.depth.pixelBytes / image.width.toNat)) :
    (pixelBytes image.width.toNat image.height.toNat image.depth f)[i]? = image.bytes[i]? := by
  rw [getElem?_bytes_pixel hi, Image.getElem?_pixelBytes (h.size_eq ▸ hi), hsame]

/-- An image made of its own pixels. -/
theorem WellFormed.pixelBytes_pixel (h : image.WellFormed) :
    pixelBytes image.width.toNat image.height.toNat image.depth image.pixel = image.bytes := by
  have hsize := h.size_pixelBytes image.pixel
  exact Bytes.eq_of_getElem? hsize fun i hi => h.getElem?_pixelBytes (hsize ▸ hi) rfl

theorem rowBytes_place (image : Image) (x y : Nat) :
    y * image.rowBytes + x * image.depth.pixelBytes
      = (y * image.width.toNat + x) * image.depth.pixelBytes := by
  rw [rowBytes, ← Nat.mul_assoc, ← Nat.add_mul]

/-! ## New images -/

/-- Whether there is a new image depends on its size and depth only. -/
theorem ofPixels_cases (d : Dimensions) (depth : Depth) (hasAlpha : Bool) :
    (∀ f, ofPixels d depth hasAlpha f = null)
      ∨ byteLength? d depth = some (d.pixels * depth.pixelBytes)
        ∧ 0 < d.pixels * depth.pixelBytes
        ∧ ∀ f, ofPixels d depth hasAlpha f
          = ⟨d.width, d.height, depth, hasAlpha,
              pixelBytes d.width.toNat d.height.toNat depth f⟩ := by
  cases hlen : byteLength? d depth with
  | none =>
    left
    intro f
    rw [ofPixels, hlen]
  | some n =>
    obtain ⟨rfl, -⟩ := byteLength?_eq_some.mp hlen
    rcases Nat.eq_zero_or_pos (d.pixels * depth.pixelBytes) with hzero | hpos
    · left
      intro f
      simp only [ofPixels, hlen, if_pos hzero]
    · refine Or.inr ⟨rfl, hpos, fun f => ?_⟩
      simp only [ofPixels, hlen, if_neg (Nat.ne_of_gt hpos)]

theorem mapPixels_ofPixels (d : Dimensions) (depth : Depth) (hasAlpha : Bool)
    (f g : Nat → Nat → Pixel) :
    (ofPixels d depth hasAlpha f).mapPixels g = ofPixels d depth hasAlpha g := by
  rw [(wellFormed_ofPixels d depth hasAlpha f).mapPixels_eq]
  rcases ofPixels_cases d depth hasAlpha with hnull | ⟨-, -, hnew⟩
  · rw [hnull, hnull]
    rfl
  · rw [hnew, hnew]

/-! ## Work on pixels -/

section Pixels

variable {depth : Depth} {bytes : Array UInt8} {n : Nat}

theorem getElem?_pixelOp {k i : Nat} (hsize : bytes.size = n * depth.pixelBytes) (hk : k < n)
    (hi : i < depth.pixelBytes) (f : Pixel → Pixel) (y : Nat) :
    (pixelOp depth f y bytes)[k * depth.pixelBytes + i]?
      = some ((f (Pixel.read depth bytes (k * depth.pixelBytes))).byte depth i) := by
  have hlt : k * depth.pixelBytes + i < bytes.size := by
    have := chunk_fits hk depth.pixelBytes
    omega
  rw [pixelOp, Array.getElem?_ofFn, dif_pos hlt, index_div hi, index_mod hi]

/-- The loop over pixels does what work on a row does. -/
theorem eachPixel?_eq (hsize : bytes.size = n * depth.pixelBytes) (f : Pixel → Pixel) (y : Nat) :
    Bytes.eachPixel? depth f bytes = some (pixelOp depth f y bytes) := by
  have htarget : (pixelOp depth f y bytes).size = bytes.size := Array.size_ofFn
  refine Bytes.eachChunk?_eq depth.pixelBytes_pos hsize htarget fun k hk => ?_
  have hfit : k * depth.pixelBytes + depth.pixelBytes ≤ bytes.size := by
    rw [hsize]
    exact chunk_fits hk _
  have hchunk := Bytes.size_slice hfit
  have hread : Bytes.pixel? depth
      (bytes.extract (k * depth.pixelBytes) (k * depth.pixelBytes + depth.pixelBytes)) 0
      = some (Pixel.read depth bytes (k * depth.pixelBytes)) := by
    rw [Bytes.pixel?_eq (by omega), Pixel.read_slice hfit]
  rw [hread, Option.bind_eq_bind, Option.bind_some, Bytes.putPixel?_whole hchunk,
    Pixel.slice_eq (by omega) fun i hi => getElem?_pixelOp hsize hk hi f y]

end Pixels

namespace Checked

theorem withBytes_eq (h : image.WellFormed) {bytes : Option (Array UInt8)} {f : Nat → Nat → Pixel}
    (hbytes : bytes
      = some (pixelBytes image.width.toNat image.height.toNat image.depth f)) :
    withBytes image bytes = some (image.mapPixels f) := by
  rw [h.mapPixels_eq, hbytes]
  rfl

theorem eachPixel?_bytes (h : image.WellFormed) (f : Pixel → Pixel) :
    Bytes.eachPixel? image.depth f image.bytes
      = some (pixelBytes image.width.toNat image.height.toNat image.depth
          fun x y => f (image.pixel x y)) := by
  have hold : (pixelOp image.depth f 0 image.bytes).size = image.bytes.size := Array.size_ofFn
  rw [eachPixel?_eq h.size_eq f 0]
  congr 1
  refine Bytes.eq_of_getElem? ?_ fun i hi => ?_
  · rw [hold, h.size_pixelBytes]
  · rw [hold] at hi
    rw [getElem?_pixelBytes (h.size_eq ▸ hi), pixelOp, Array.getElem?_ofFn, dif_pos hi,
      Image.pixel, offset, index_of_place]

theorem fill_eq (h : image.WellFormed) (c : Color) : fill image c = some (image.fill c) := by
  refine withBytes_eq h (Bytes.eachChunk?_eq image.depth.pixelBytes_pos h.size_eq
    (h.size_pixelBytes _) fun k hk => ?_)
  rw [slice_pixelBytes _ _ hk, Bytes.putPixel?_whole (Bytes.size_slice (h.pixel_fits hk))]

/-! ## Some of the pixels -/

theorem update?_pixel (depth : Depth) (bytes : Array UInt8) (start : Nat)
    (f : Pixel → Option Pixel) :
    (do
      let old ← Bytes.pixel? depth bytes start
      let new ← f old
      Bytes.putPixel? depth bytes start new)
      = Bytes.update? bytes start depth.pixelBytes fun chunk =>
        (f (Pixel.read depth chunk 0)).map fun new => (new.bytes depth).toArray := by
  rw [Bytes.pixel?, Bytes.update?]
  cases Bytes.slice? bytes start depth.pixelBytes with
  | none => rfl
  | some chunk =>
    simp only [Option.map_some, Option.bind_eq_bind, Option.bind_some]
    cases f (Pixel.read depth chunk 0) with
    | none => rfl
    | some new => rfl

/-- Pixels at different positions are changed without looking at one another. -/
theorem changeAt_eq (h : image.WellFormed) {places : List (Nat × Nat)} (hnodup : places.Nodup)
    (hinside : ∀ p ∈ places, p.1 < image.width.toNat ∧ p.2 < image.height.toNat)
    {f : Nat → Nat → Pixel → Option Pixel} {g : Nat → Nat → Pixel}
    (hf : ∀ p ∈ places, f p.1 p.2 (image.pixel p.1 p.2) = some (g p.1 p.2))
    (hrest : ∀ x y, (x, y) ∉ places → g x y = image.pixel x y) :
    changeAt image places f = some (image.mapPixels g) := by
  have hindex : ∀ p ∈ places,
      p.2 * image.width.toNat + p.1 < image.width.toNat * image.height.toNat :=
    fun p hp => index_lt (hinside p hp).1 (hinside p hp).2
  have hfit : ∀ p ∈ places,
      image.offset p.1 p.2 + image.depth.pixelBytes ≤ image.bytes.size :=
    fun p hp => h.pixel_fits (hindex p hp)
  have htarget := h.size_pixelBytes g
  let touched (p : Nat × Nat) : Nat → Prop :=
    Within (image.offset p.1 p.2) image.depth.pixelBytes
  refine withBytes_eq h (Bytes.foldlM_patches touched touched htarget (fun p hp => ?_) ?_
    fun i hlt hi => ?_)
  · simp only [update?_pixel]
    refine Bytes.patches_update? (hfit p hp) htarget ?_
    rw [Pixel.read_slice (hfit p hp), ← Image.pixel, hf p hp, Option.map_some, offset,
      slice_pixelBytes _ _ (hindex p hp), index_mod (hinside p hp).1, index_div (hinside p hp).1]
  · -- A byte belongs to one pixel, and a pixel to one position.
    refine hnodup.imp_of_mem fun {p q} hp hq hne i hi hj => hne ?_
    simp only [touched, offset, Bytes.within_chunk image.depth.pixelBytes_pos] at hi hj
    have hsame := hi.symm.trans hj
    have hcolumn := congrArg (· % image.width.toNat) hsame
    have hrow := congrArg (· / image.width.toNat) hsame
    simp only [index_mod (hinside p hp).1, index_mod (hinside q hq).1] at hcolumn
    simp only [index_div (hinside p hp).1, index_div (hinside q hq).1] at hrow
    exact Prod.ext hcolumn hrow
  · refine h.getElem?_pixelBytes hlt (hrest _ _ fun hp => hi _ hp ?_)
    simp only [touched, offset, Bytes.within_chunk image.depth.pixelBytes_pos, index_of_place]

theorem pixel_eq (h : image.WellFormed) {x y : Nat} (hx : x < image.width.toNat)
    (hy : y < image.height.toNat) : pixel image x y = some (image.pixel x y) :=
  Bytes.pixel?_eq (h.pixel_fits (index_lt hx hy))

theorem setPixel_eq (h : image.WellFormed) {x y : Nat} (hx : x < image.width.toNat)
    (hy : y < image.height.toNat) (c : Color) :
    setPixel image x y c = some (image.setPixel x y c) := by
  have hold := pixel_eq h hx hy
  have hchange : setPixel image x y c
      = changeAt image [(x, y)] fun _ _ _ => some (c.toDepth image.depth).pixel := by
    rw [pixel] at hold
    simp only [setPixel, changeAt, List.foldlM_cons, List.foldlM_nil, hold, Option.bind_eq_bind,
      Option.bind_some, Option.pure_def, Option.bind_fun_some]
  rw [hchange]
  refine changeAt_eq h (List.nodup_singleton _) (fun p hp => ?_) (fun p hp => ?_)
    fun i j hij => ?_
  · rw [List.mem_singleton.mp hp]
    exact ⟨hx, hy⟩
  · rw [List.mem_singleton.mp hp, if_pos ⟨rfl, rfl⟩]
  · rw [List.mem_singleton, Prod.mk.injEq] at hij
    exact if_neg hij

theorem mem_positions {x y width height i j : Nat} :
    (i, j) ∈ positions x y width height
      ↔ (x ≤ i ∧ i < x + width) ∧ y ≤ j ∧ j < y + height := by
  simp only [positions, List.mem_flatMap, List.mem_map, List.mem_range, Prod.mk.injEq]
  constructor
  · rintro ⟨b, hb, a, ha, rfl, rfl⟩
    omega
  · rintro ⟨⟨hx, hi⟩, hy, hj⟩
    exact ⟨j - y, by omega, i - x, by omega, by omega, by omega⟩

theorem nodup_positions (x y width height : Nat) : (positions x y width height).Nodup := by
  refine List.nodup_flatMap.mpr ⟨fun j _ => ?_, ?_⟩
  · exact List.nodup_range.map fun a b hab => by simpa using hab
  · refine List.nodup_range.imp fun {j k} hne => ?_
    rintro p hj hk
    simp only [List.mem_map] at hj hk
    obtain ⟨a, -, rfl⟩ := hj
    obtain ⟨b, -, hb⟩ := hk
    rw [Prod.mk.injEq] at hb
    omega

theorem removeAlpha_eq (h : image.WellFormed) (background : Color) :
    removeAlpha image background = some (image.removeAlpha background) := by
  unfold removeAlpha Image.removeAlpha
  split
  · rfl
  · dsimp only
    rw [eachPixel?_bytes h, h.mapPixels_eq]
    rfl

theorem toDepth_self (c : Color) : c.toDepth c.depth = c := by
  unfold Color.toDepth
  cases c.depth <;> rfl

/-- Zeros have the depth of the color, unless they are null. -/
theorem filled_eq (d : Dimensions) (hasAlpha : Bool) (c : Color) :
    filled d hasAlpha c = some (Image.filled d hasAlpha c) := by
  have hzeros : (zeros d c.depth hasAlpha).WellFormed := wellFormed_ofPixels _ _ _ _
  rw [filled, fill_eq hzeros, Image.filled, Option.some_inj]
  rcases ofPixels_cases d c.depth hasAlpha with hnull | ⟨-, -, hnew⟩
  · rw [zeros, hnull, hnull]
    rfl
  · have hdepth : (zeros d c.depth hasAlpha).depth = c.depth := by rw [zeros, hnew]
    rw [Image.fill, hdepth, toDepth_self, zeros, mapPixels_ofPixels]

end Checked

end Image

end Darkroom
