import Darkroom.Proofs.Geometry
import Darkroom.Proofs.Image.Pixels

/-!
# No index leaves an image when pixels are moved

Parts, placed rectangles, rotations and flips. Rows are copied as lines of pixels (`slice?_line`),
rotations scatter pixels into zeros, and flips exchange bytes in place.
-/

namespace Darkroom.Image

open Bytes (Within)

variable {image target source : Image}

/-- A line of pixels of an image, as it stands in another one. -/
theorem slice?_line (h : image.WellFormed) {x y n x' y' w' h' : Nat} {g : Nat → Nat → Pixel}
    (hx : x + n ≤ image.width.toNat) (hy : y < image.height.toNat) (hx' : x' + n ≤ w')
    (hy' : y' < h') (hsame : ∀ i < n, image.pixel (x + i) y = g (x' + i) y') :
    Bytes.slice? image.bytes (y * image.rowBytes + x * image.depth.pixelBytes)
        (n * image.depth.pixelBytes)
      = some ((pixelBytes w' h' image.depth g).extract ((y' * w' + x') * image.depth.pixelBytes)
          ((y' * w' + x') * image.depth.pixelBytes + n * image.depth.pixelBytes)) := by
  have hfit : (y * image.width.toNat + x) * image.depth.pixelBytes + n * image.depth.pixelBytes
      ≤ image.bytes.size := by
    rw [h.size_eq]
    exact line_fits hx hy _
  have hfit' : (y' * w' + x') * image.depth.pixelBytes + n * image.depth.pixelBytes
      ≤ (pixelBytes w' h' image.depth g).size := by
    rw [size_pixelBytes]
    exact line_fits hx' hy' _
  rw [rowBytes_place, Bytes.slice?_eq hfit, Bytes.slice_eq hfit (Bytes.size_slice hfit')]
  intro i hi
  have hcolumn : i / image.depth.pixelBytes < n := Nat.div_lt_of_lt_mul (by rwa [Nat.mul_comm])
  rw [Bytes.getElem?_slice hfit' hi, ← h.pixelBytes_pixel, getElem?_pixelBytes_line hx hy hi,
    getElem?_pixelBytes_line hx' hy' hi, hsame _ hcolumn]

/-! ## Clipping -/

/-- A trimmed span lies in both images. -/
theorem Span.trimmed (s : Span) (sourceSize targetSize : Nat) :
    0 ≤ (s.trimStart.trimEnd sourceSize targetSize).source
      ∧ 0 ≤ (s.trimStart.trimEnd sourceSize targetSize).target
      ∧ (s.trimStart.trimEnd sourceSize targetSize).source
          + (s.trimStart.trimEnd sourceSize targetSize).length ≤ sourceSize
      ∧ (s.trimStart.trimEnd sourceSize targetSize).target
          + (s.trimStart.trimEnd sourceSize targetSize).length ≤ targetSize := by
  have hstart : 0 ≤ s.trimStart.source ∧ 0 ≤ s.trimStart.target := by
    grind [trimStart]
  dsimp only [trimEnd]
  omega

/-- Where a region lies. A region that was clipped is inside both images, and then no index that a
copy computes from it is out of bounds. -/
structure Region.Inside (r : Region) (source target : Dimensions) : Prop where
  sourceX : r.sourceX + r.width ≤ source.width.toNat
  sourceY : r.sourceY + r.height ≤ source.height.toNat
  targetX : r.targetX + r.width ≤ target.width.toNat
  targetY : r.targetY + r.height ≤ target.height.toNat

theorem inside_of_clip {rect : Rect} {corner : Point} {source target : Dimensions} {region : Region}
    (h : clip rect corner source target = some region) : region.Inside source target := by
  unfold clip at h
  dsimp only at h
  split at h
  · obtain ⟨hx, hx', hright, hright'⟩ := Span.trimmed
      ⟨rect.x.toInt, corner.x.toInt, rect.width.toInt⟩ source.width.toNat target.width.toNat
    obtain ⟨hy, hy', hbottom, hbottom'⟩ := Span.trimmed
      ⟨rect.y.toInt, corner.y.toInt, rect.height.toInt⟩ source.height.toNat target.height.toNat
    cases h
    constructor <;> dsimp only <;> omega
  · cases h

theorem depth_of_placeFault? (h : placeFault? target source = none) :
    target.depth = source.depth := by
  unfold placeFault? at h
  split at h
  · cases h
  split at h
  · cases h
  · rename_i hdepth
    exact Decidable.not_not.mp hdepth

theorem Region.covers_iff {r : Region} {x y : Nat} :
    r.covers x y
      ↔ (r.targetX ≤ x ∧ x < r.targetX + r.width) ∧ r.targetY ≤ y ∧ y < r.targetY + r.height := by
  simp only [covers, Bool.and_eq_true, decide_eq_true_eq, and_assoc]

/-! ## Rotated frames -/

/-- The pixels of an image on a frame of as many pixels. -/
theorem WellFormed.ofPixels_eq (h : image.WellFormed) (hnull : image.isNull = false) {d : Dimensions}
    (hd : d.pixels = image.pixelCount) (hasAlpha : Bool) (f : Nat → Nat → Pixel) :
    ofPixels d image.depth hasAlpha f
      = ⟨d.width, d.height, image.depth, hasAlpha,
          pixelBytes d.width.toNat d.height.toNat image.depth f⟩ := by
  have hlen := byteLength?_of_le h.isSome_byteLength (Nat.le_of_eq hd)
  have hpos := h.isNull_eq_false_iff.mp hnull
  rw [← hd] at hpos
  exact Image.ofPixels_eq hlen hpos hasAlpha f

/-- A rotated image has as many pixels. -/
theorem area_rotatedDimensions (image : Image) (rotation : Rotation) :
    (image.rotatedDimensions rotation).width.toNat * (image.rotatedDimensions rotation).height.toNat
      = image.width.toNat * image.height.toNat := by
  cases rotation with
  | half => rfl
  | quarter | threeQuarters => exact Nat.mul_comm _ _

/-- The pixel of an image that a rotated one shows. It takes the place that a pixel goes to back, so
every place of the new image is written once. -/
def unrotated (image : Image) (rotation : Rotation) (x y : Nat) : Nat × Nat :=
  match rotation with
  | .quarter => (y, image.height.toNat - 1 - x)
  | .half => (image.width.toNat - 1 - x, image.height.toNat - 1 - y)
  | .threeQuarters => (image.width.toNat - 1 - y, x)

namespace Checked

/-! ## Parts -/

/-- Rows of an image copied over the rows of a new one. -/
theorem eachChunk?_part (h : image.WellFormed) {x y width height : Nat} (hpos : 0 < width)
    (hx : x + width ≤ image.width.toNat) (hy : y + height ≤ image.height.toNat)
    (f : Nat → Nat → Pixel) :
    Bytes.eachChunk? (width * image.depth.pixelBytes)
        (fun row _ => Bytes.slice? image.bytes
          ((y + row) * image.rowBytes + x * image.depth.pixelBytes)
          (width * image.depth.pixelBytes))
        (pixelBytes width height image.depth f)
      = some (pixelBytes width height image.depth fun i j => image.pixel (x + i) (y + j)) := by
  have hold : (pixelBytes width height image.depth f).size
      = height * (width * image.depth.pixelBytes) := by
    rw [size_pixelBytes, ← Nat.mul_assoc, Nat.mul_comm width]
  refine Bytes.eachChunk?_eq (Nat.mul_pos hpos image.depth.pixelBytes_pos) hold
    (by rw [size_pixelBytes, size_pixelBytes]) fun row hrow => ?_
  have hcolumns : 0 + width ≤ width := by omega
  rw [slice?_line h hx (Nat.lt_of_lt_of_le (Nat.add_lt_add_left hrow y) hy) hcolumns hrow
    fun i _ => by rw [Nat.zero_add], Nat.add_zero, Nat.mul_assoc row]

theorem isNull_of_bytes {new : Image} (h : 0 < new.bytes.size) : new.isNull = false := by
  rw [isNull, Array.isEmpty_eq_false_iff, ne_eq, ← Array.size_eq_zero_iff]
  exact Nat.ne_of_gt h

theorem part_eq (h : image.WellFormed) {area : Rect} (harea : area.Inside image.dimensions) :
    part image area = some (image.part area) := by
  have hw := toNat_toUInt32 area.width (Int.le_of_lt harea.width)
  have hh := toNat_toUInt32 area.height (Int.le_of_lt harea.height)
  obtain ⟨hx, hy, hwidth, hheight, hright, hbottom⟩ := harea
  rw [dimensions] at hright hbottom
  dsimp only at hright hbottom
  rw [part, Image.part]
  generalize hd : (⟨area.width.toUInt32, area.height.toUInt32⟩ : Dimensions) = d
  have hdw : d.width.toNat = area.width.toInt.toNat := by rw [← hd, hw]
  have hdh : d.height.toNat = area.height.toInt.toNat := by rw [← hd, hh]
  have hzeros : (zeros d image.depth image.hasAlpha).WellFormed := wellFormed_ofPixels _ _ _ _
  rw [← mapPixels_ofPixels d image.depth image.hasAlpha fun _ _ => ⟨0, 0, 0, 0⟩, ← zeros]
  -- Whether zeros are null depends on the size alone, for both sides alike.
  rcases ofPixels_cases d image.depth image.hasAlpha with hnull | ⟨-, hpos, hnew⟩
  · rw [zeros, hnull]
    rfl
  · have hframe : zeros d image.depth image.hasAlpha = _ := hnew _
    have hnull : (zeros d image.depth image.hasAlpha).isNull = false := by
      refine isNull_of_bytes ?_
      rw [hframe, size_pixelBytes]
      exact hpos
    rw [hnull, if_neg Bool.false_ne_true]
    have hstride : (zeros d image.depth image.hasAlpha).rowBytes
        = d.width.toNat * image.depth.pixelBytes := by
      rw [hframe]
      rfl
    refine withBytes_eq hzeros ?_
    rw [hstride, hframe]
    have hcolumns : area.x.toInt.toNat + d.width.toNat ≤ image.width.toNat := by omega
    have hrows : area.y.toInt.toNat + d.height.toNat ≤ image.height.toNat := by omega
    exact eachChunk?_part h (by omega) hcolumns hrows fun _ _ => ⟨0, 0, 0, 0⟩

theorem copy_eq (h : image.WellFormed) (rect : Option Rect) :
    copy image rect = some (image.copy rect) := by
  have hcopy : copy image rect
      = if image.isNull then some null
        else if (Rect.copied image.dimensions rect).isEmpty then some null
        else if Rect.copied image.dimensions rect = Rect.ofDimensions image.dimensions then some image
        else part image (Rect.copied image.dimensions rect) := by
    cases rect <;> rfl
  rw [hcopy, copy_eq_copied]
  split
  · rfl
  split
  · rfl
  split
  · rfl
  · rename_i hempty hpart
    exact part_eq h (Rect.inside_copied hpart (Bool.eq_false_iff.mpr hempty))

/-! ## Placing -/

theorem blitRegion_eq (htarget : target.WellFormed) (hsource : source.WellFormed)
    (hdepth : target.depth = source.depth) {region : Region}
    (hregion : region.Inside source.dimensions target.dimensions) :
    blitRegion target source region
      = some (target.mapPixels fun x y =>
        if region.covers x y then region.pixelAt source x y else target.pixel x y) := by
  obtain ⟨hsx, hsy, htx, hty⟩ := hregion
  dsimp only [dimensions] at hsx hsy htx hty
  refine withBytes_eq htarget ?_
  generalize hnew : (fun x y =>
    if region.covers x y then region.pixelAt source x y else target.pixel x y) = new
  have hsize := htarget.size_pixelBytes new
  refine Bytes.foldlM_patches (fun _ _ => False) (fun row => Within
      (((region.targetY + row) * target.width.toNat + region.targetX) * target.depth.pixelBytes)
      (region.width * target.depth.pixelBytes)) hsize (fun row hrow => ?_) ?_ fun i hlt hi => ?_
  · rw [List.mem_range] at hrow
    have hline := slice?_line hsource (g := new) hsx
      (Nat.lt_of_lt_of_le (Nat.add_lt_add_left hrow _) hsy) htx
      (Nat.lt_of_lt_of_le (Nat.add_lt_add_left hrow _) hty) fun i hi => ?_
    · rw [← hdepth] at hline
      simp only [hline, Option.bind_eq_bind, Option.bind_some, rowBytes_place]
      refine Bytes.patches_put? ?_ hsize
      rw [htarget.size_eq]
      exact line_fits htx (by omega) _
    · rw [← hnew]
      dsimp only
      rw [if_pos (Region.covers_iff.mpr (by omega)), Region.pixelAt, Nat.add_sub_cancel_left,
        Nat.add_sub_cancel_left]
  · exact List.pairwise_of_forall fun _ _ _ _ h => h
  · refine htarget.getElem?_pixelBytes hlt ?_
    rw [← hnew]
    refine if_neg fun hcovers => ?_
    rw [Region.covers_iff] at hcovers
    refine hi (i / target.depth.pixelBytes / target.width.toNat - region.targetY) ?_ ?_
    · rw [List.mem_range]
      omega
    · rw [within_line htx]
      exact ⟨by omega, hcovers.1⟩

theorem blendRegion_eq (htarget : target.WellFormed) (hsource : source.WellFormed) {region : Region}
    (hregion : region.Inside source.dimensions target.dimensions) :
    blendRegion target source region
      = some (target.mapPixels fun x y =>
        if region.covers x y then
          Pixel.layered target.depth.maxValue (region.pixelAt source x y) (target.pixel x y)
        else target.pixel x y) := by
  obtain ⟨hsx, hsy, htx, hty⟩ := hregion
  dsimp only [dimensions] at hsx hsy htx hty
  refine changeAt_eq htarget (nodup_positions _ _ _ _) (fun p hp => ?_) (fun p hp => ?_)
    fun x y hout => ?_
  · rw [mem_positions] at hp
    exact ⟨by omega, by omega⟩
  · rw [mem_positions] at hp
    rw [if_pos (Region.covers_iff.mpr hp), pixel_eq hsource (by omega) (by omega)]
    rfl
  · rw [mem_positions, ← Region.covers_iff] at hout
    exact if_neg hout

/-- Placing with checked indices, by what it does in a region inside both images. -/
theorem place_eq {work : Region → Option Image} {join : Pixel → Pixel → Pixel} {rect : Rect}
    {corner : Point}
    (hwork : target.depth = source.depth → ∀ region : Region,
      region.Inside source.dimensions target.dimensions →
      work region = some (target.mapPixels fun x y =>
        if region.covers x y then join (region.pixelAt source x y) (target.pixel x y)
        else target.pixel x y)) :
    place work target source rect corner = some (Image.place join target source rect corner) := by
  unfold place Image.place
  cases hfault : placeFault? target source with
  | some fault => rfl
  | none =>
    have hdepth := depth_of_placeFault? hfault
    cases hclip : clip rect corner source.dimensions target.dimensions with
    | none => rfl
    | some region =>
      dsimp only
      rw [hwork hdepth region (inside_of_clip hclip), Option.map_some]

theorem blit_eq (htarget : target.WellFormed) (hsource : source.WellFormed) (rect : Rect)
    (corner : Point) :
    blit target source rect corner = some (target.blit source rect corner) :=
  place_eq fun hdepth _ => blitRegion_eq htarget hsource hdepth

theorem blend_eq (htarget : target.WellFormed) (hsource : source.WellFormed) (rect : Rect)
    (corner : Point) :
    blend target source rect corner = some (target.blend source rect corner) :=
  place_eq fun _ _ => blendRegion_eq htarget hsource

/-! ## Rotations -/

theorem rotated_unrotated (image : Image) (rotation : Rotation) {x y : Nat}
    (hx : x < (image.rotatedDimensions rotation).width.toNat)
    (hy : y < (image.rotatedDimensions rotation).height.toNat) :
    (unrotated image rotation x y).1 < image.width.toNat
      ∧ (unrotated image rotation x y).2 < image.height.toNat
      ∧ rotated image rotation (unrotated image rotation x y).1 (unrotated image rotation x y).2
        = (x, y) := by
  cases rotation <;> simp only [rotatedDimensions, dimensions] at hx hy <;>
    refine ⟨?_, ?_, Prod.ext ?_ ?_⟩ <;> simp only [unrotated, rotated] <;> omega

theorem unrotated_rotated (image : Image) (rotation : Rotation) {x y : Nat}
    (hx : x < image.width.toNat) (hy : y < image.height.toNat) :
    (rotated image rotation x y).1 < (image.rotatedDimensions rotation).width.toNat
      ∧ (rotated image rotation x y).2 < (image.rotatedDimensions rotation).height.toNat
      ∧ unrotated image rotation (rotated image rotation x y).1 (rotated image rotation x y).2
        = (x, y) := by
  cases rotation <;> simp only [rotatedDimensions, dimensions] <;>
    refine ⟨?_, ?_, Prod.ext ?_ ?_⟩ <;> simp only [unrotated, rotated] <;> omega

theorem rotate_eq_unrotated (image : Image) (rotation : Rotation) :
    image.rotate rotation = if image.isNull then image
      else ofPixels (image.rotatedDimensions rotation) image.depth image.hasAlpha fun x y =>
        image.pixel (unrotated image rotation x y).1 (unrotated image rotation x y).2 := by
  cases rotation <;> rfl

/-- The number of the pixel that a rotation makes of the pixel with a given number. The loop goes
through the old pixels, so it writes all over the new image, and each place has to be met once. -/
def scattered (image : Image) (rotation : Rotation) (k : Nat) : Nat :=
  let (x, y) := rotated image rotation (k % image.width.toNat) (k / image.width.toNat)
  y * (image.rotatedDimensions rotation).width.toNat + x

theorem scattered_lt (image : Image) (rotation : Rotation) {k : Nat}
    (hk : k < image.width.toNat * image.height.toNat) :
    scattered image rotation k < image.width.toNat * image.height.toNat
      ∧ unrotated image rotation
          (scattered image rotation k % (image.rotatedDimensions rotation).width.toNat)
          (scattered image rotation k / (image.rotatedDimensions rotation).width.toNat)
        = (k % image.width.toNat, k / image.width.toNat) := by
  obtain ⟨hx, hy⟩ := place_lt hk
  obtain ⟨hx', hy', hback⟩ := unrotated_rotated image rotation hx hy
  rw [← area_rotatedDimensions image rotation, scattered]
  refine ⟨index_lt hx' hy', ?_⟩
  dsimp only
  rw [index_mod hx', index_div hx', hback]

theorem exists_scattered (image : Image) (rotation : Rotation) {j : Nat}
    (hj : j < image.width.toNat * image.height.toNat) :
    ∃ k < image.width.toNat * image.height.toNat, scattered image rotation k = j := by
  rw [← area_rotatedDimensions image rotation] at hj
  obtain ⟨hx, hy⟩ := place_lt hj
  obtain ⟨hx', hy', hback⟩ := rotated_unrotated image rotation hx hy
  refine ⟨_, index_lt hx' hy', ?_⟩
  rw [scattered, index_mod hx', index_div hx', hback]
  exact index_of_place

/-- Every pixel is moved, and every place of the rotated image gets one. -/
theorem foldlM_scattered (h : image.WellFormed) (rotation : Rotation) :
    (List.range (image.bytes.size / image.depth.pixelBytes)).foldlM (fun bytes k => do
        let part ← Bytes.slice? image.bytes (k * image.depth.pixelBytes) image.depth.pixelBytes
        Bytes.put? bytes (scattered image rotation k * image.depth.pixelBytes) part)
      (Array.replicate image.bytes.size 0)
      = some (pixelBytes (image.rotatedDimensions rotation).width.toNat
          (image.rotatedDimensions rotation).height.toNat image.depth fun x y =>
            image.pixel (unrotated image rotation x y).1 (unrotated image rotation x y).2) := by
  have harea := area_rotatedDimensions image rotation
  have hnumber : image.bytes.size / image.depth.pixelBytes
      = image.width.toNat * image.height.toNat := by
    rw [h.size_eq, Nat.mul_div_cancel _ image.depth.pixelBytes_pos]
  have hzeros : (Array.replicate image.bytes.size (0 : UInt8)).size
      = image.width.toNat * image.height.toNat * image.depth.pixelBytes := by
    rw [Array.size_replicate, h.size_eq]
  rw [hnumber]
  refine Bytes.foldlM_patches (fun _ _ => False) (fun k =>
    Within (scattered image rotation k * image.depth.pixelBytes) image.depth.pixelBytes)
    (by rw [size_pixelBytes, harea, hzeros]) (fun k hk => ?_) ?_ fun i hlt hi => ?_
  · rw [List.mem_range] at hk
    obtain ⟨hplace, hback⟩ := scattered_lt image rotation hk
    have hpart := slice_pixelBytes image.depth image.pixel hk
    rw [h.pixelBytes_pixel] at hpart
    simp only [Bytes.slice?_eq (h.pixel_fits hk), hpart, Option.bind_eq_bind, Option.bind_some]
    have htarget := slice_pixelBytes image.depth (fun x y =>
      image.pixel (unrotated image rotation x y).1 (unrotated image rotation x y).2)
      (harea.symm ▸ hplace)
    rw [hback] at htarget
    rw [← htarget]
    refine Bytes.patches_put? ?_ (by rw [size_pixelBytes, harea, hzeros])
    rw [hzeros]
    exact chunk_fits hplace _
  · exact List.pairwise_of_forall fun _ _ _ _ h => h
  · rw [hzeros, ← Nat.div_lt_iff_lt_mul image.depth.pixelBytes_pos] at hlt
    obtain ⟨k, hk, hscattered⟩ := exists_scattered image rotation hlt
    refine absurd ?_ (hi k (List.mem_range.mpr hk))
    rw [hscattered, Bytes.within_chunk image.depth.pixelBytes_pos]

theorem rotate_eq (h : image.WellFormed) (rotation : Rotation) :
    rotate image rotation = some (image.rotate rotation) := by
  rw [rotate, rotate_eq_unrotated]
  split
  · rfl
  · rename_i hnull
    rw [Bool.not_eq_true] at hnull
    rw [h.ofPixels_eq hnull (area_rotatedDimensions image rotation)]
    exact congrArg (withBytes _) (foldlM_scattered h rotation)

/-! ## Flips -/

/-- A row mirrored by reversing its bytes and then those of each pixel. -/
theorem mirrorRow_eq {depth : Depth} {row new : Array UInt8} {n : Nat}
    (hrow : row.size = n * depth.pixelBytes) (hnew : new.size = row.size)
    (h : ∀ k < n, ∀ i < depth.pixelBytes,
      new[k * depth.pixelBytes + i]? = row[(n - 1 - k) * depth.pixelBytes + i]?) :
    mirrorRow depth row = some new := by
  have hreverse : row.reverse.size = n * depth.pixelBytes := by rw [Array.size_reverse, hrow]
  refine Bytes.eachChunk?_eq depth.pixelBytes_pos hreverse (by rw [hnew, hrow, hreverse])
    fun k hk => ?_
  have hfit := chunk_fits hk depth.pixelBytes
  have hchunk : (row.reverse.extract (k * depth.pixelBytes)
      (k * depth.pixelBytes + depth.pixelBytes)).size = depth.pixelBytes :=
    Bytes.size_slice (by omega)
  -- What `omega` needs to know of the products: the mirrored pixel ends where pixel `k` begins.
  have hback : (n - 1 - k + 1 + k) * depth.pixelBytes = n * depth.pixelBytes := by
    congr 1
    omega
  rw [Nat.add_mul, Nat.succ_mul] at hback
  refine congrArg some (Bytes.slice_eq (by omega) (Array.size_reverse.trans hchunk)
    fun i hi => ?_).symm
  rw [h k hk i hi, Array.getElem?_reverse (by omega), hchunk,
    Bytes.getElem?_slice (by omega) (by omega), Array.getElem?_reverse (by omega)]
  congr 1
  omega

theorem flipHorizontal_eq (h : image.WellFormed) (hnull : image.isNull = false) :
    Bytes.eachChunk? image.rowBytes (fun _ => mirrorRow image.depth) image.bytes
      = some (pixelBytes image.width.toNat image.height.toNat image.depth fun x y =>
          image.pixel (image.width.toNat - 1 - x) y) := by
  refine Bytes.eachChunk?_eq (Nat.mul_pos (h.width_pos hnull) image.depth.pixelBytes_pos)
    h.bytes_size_eq_rows (h.size_pixelBytes _) fun y hy => ?_
  have hfit := h.row_fits hy
  have hsize := Bytes.size_slice hfit
  have hfit' : y * image.rowBytes + image.rowBytes ≤ (pixelBytes image.width.toNat
      image.height.toNat image.depth fun x y => image.pixel (image.width.toNat - 1 - x) y).size := by
    rwa [h.size_pixelBytes]
  refine mirrorRow_eq (n := image.width.toNat) hsize (by rw [hsize, Bytes.size_slice hfit'])
    fun k hk i hi => ?_
  have hk' : image.width.toNat - 1 - k < image.width.toNat := by omega
  have hplace := chunk_fits hk image.depth.pixelBytes
  have hplace' := chunk_fits hk' image.depth.pixelBytes
  rw [Bytes.getElem?_slice hfit (by rw [rowBytes]; omega),
    Bytes.getElem?_slice hfit' (by rw [rowBytes]; omega), ← Nat.add_assoc, rowBytes_place,
    ← Nat.add_assoc, rowBytes_place, ← h.pixelBytes_pixel, getElem?_pixelBytes_at hk hy hi,
    getElem?_pixelBytes_at hk' hy hi]

/-- The exchange of two ranges, the second of which is split off before the first is read. -/
theorem patches_exchange {old new : Array UInt8} {top bottom count : Nat}
    (habove : top + count ≤ bottom) (hfit : bottom + count ≤ old.size) (hnew : new.size = old.size)
    (htop : new.extract top (top + count) = old.extract bottom (bottom + count))
    (hbottom : new.extract bottom (bottom + count) = old.extract top (top + count)) :
    Bytes.Patches (fun bytes => do
        let first ← Bytes.slice? (bytes.extract 0 bottom) top count
        let second ← Bytes.slice? bytes bottom count
        let bytes ← Bytes.put? bytes top second
        Bytes.put? bytes bottom first)
      (fun i => Within top count i ∨ Within bottom count i)
      (fun i => Within top count i ∨ Within bottom count i) old new := by
  intro bytes hbytes hsame
  have hfirst : Bytes.slice? (bytes.extract 0 bottom) top count
      = some (new.extract bottom (bottom + count)) := by
    have hfront : (bytes.extract 0 (0 + bottom)).size = bottom := Bytes.size_slice (by omega)
    rw [Nat.zero_add] at hfront
    rw [Bytes.slice?_eq (by omega), hbottom]
    refine congrArg some (Bytes.slice_eq (by omega) (Bytes.size_slice (by omega)) fun i hi => ?_)
    have hinner : (bytes.extract 0 (0 + bottom))[top + i]? = bytes[0 + (top + i)]? :=
      Bytes.getElem?_slice (by omega) (by omega)
    rw [Nat.zero_add, Nat.zero_add] at hinner
    rw [hinner, Bytes.getElem?_slice (by omega) hi]
    exact hsame _ (Or.inl ⟨Nat.le_add_right _ _, by omega⟩)
  have hsecond : Bytes.slice? bytes bottom count = some (new.extract top (top + count)) := by
    rw [Bytes.slice?_eq (by omega), htop,
      Bytes.slice_congr hbytes hfit fun i hi => hsame i (Or.inr hi)]
  have hupper : top + count ≤ old.size := by omega
  obtain ⟨middle, hput, hmiddle, hin, hout⟩ :=
    Bytes.patches_put? hupper hnew bytes hbytes fun _ => False.elim
  obtain ⟨result, hput', hresult, hin', hout'⟩ :=
    Bytes.patches_put? hfit hnew middle hmiddle fun _ => False.elim
  dsimp only at hput hput'
  -- The second write wins where the ranges would meet, and both put the bytes of `new` there.
  refine ⟨result, ?_, hresult, fun i hi => ?_, fun i hi => ?_⟩
  · simp only [hfirst, hsecond, Option.bind_eq_bind, Option.bind_some, hput, hput']
  · by_cases hlow : Within bottom count i
    · exact hin' i hlow
    · rw [hout' i hlow, hin i (hi.resolve_right hlow)]
  · rw [not_or] at hi
    rw [hout' i hi.2, hout i hi.1]

/-- A row of the upside-down pixels is the row as far from the other end. -/
theorem row_flipped (h : image.WellFormed) {y : Nat} (hy : y < image.height.toNat) :
    (pixelBytes image.width.toNat image.height.toNat image.depth fun x y =>
        image.pixel x (image.height.toNat - 1 - y)).extract
        (y * image.rowBytes) (y * image.rowBytes + image.rowBytes)
      = image.bytes.extract ((image.height.toNat - 1 - y) * image.rowBytes)
        ((image.height.toNat - 1 - y) * image.rowBytes + image.rowBytes) := by
  have hy' : image.height.toNat - 1 - y < image.height.toNat := by omega
  have hcolumns : 0 + image.width.toNat ≤ image.width.toNat := by omega
  have hslice := slice?_line h
    (g := fun x y => image.pixel x (image.height.toNat - 1 - y)) hcolumns hy' hcolumns hy
    fun _ _ => rfl
  rw [Nat.zero_mul, Nat.add_zero, ← rowBytes, Bytes.slice?_eq (h.row_fits hy'),
    Option.some_inj] at hslice
  rw [hslice, Nat.add_zero, Nat.mul_assoc, ← rowBytes]

/-- Only the middle row of an odd number of rows has no row to change places with. -/
theorem mirrored_of_unpaired {rows row : Nat} (hrow : row < rows)
    (hunpaired : ∀ y < rows / 2, row ≠ y ∧ row ≠ rows - 1 - y) : rows - 1 - row = row := by
  by_contra hne
  rcases Nat.lt_or_ge row (rows / 2) with hupper | hlower
  · exact (hunpaired row hupper).1 rfl
  · exact (hunpaired (rows - 1 - row) (by omega)).2 (by omega)

theorem flipVertical_eq (h : image.WellFormed) (hnull : image.isNull = false) :
    (List.range (image.bytes.size / image.rowBytes / 2)).foldlM
        (exchangeRows image.rowBytes (image.bytes.size / image.rowBytes)) image.bytes
      = some (pixelBytes image.width.toNat image.height.toNat image.depth fun x y =>
          image.pixel x (image.height.toNat - 1 - y)) := by
  have hstride : 0 < image.rowBytes :=
    Nat.mul_pos (h.width_pos hnull) image.depth.pixelBytes_pos
  have hrows : image.bytes.size / image.rowBytes = image.height.toNat := by
    rw [h.bytes_size_eq_rows, Nat.mul_div_cancel _ hstride]
  have htarget := h.size_pixelBytes fun x y => image.pixel x (image.height.toNat - 1 - y)
  rw [hrows]
  refine Bytes.foldlM_patches
    (fun y i => Within (y * image.rowBytes) image.rowBytes i
      ∨ Within ((image.height.toNat - 1 - y) * image.rowBytes) image.rowBytes i)
    (fun y i => Within (y * image.rowBytes) image.rowBytes i
      ∨ Within ((image.height.toNat - 1 - y) * image.rowBytes) image.rowBytes i)
    htarget (fun y hy => ?_) ?_ fun i hlt hi => ?_
  · rw [List.mem_range] at hy
    have hback : image.height.toNat - 1 - (image.height.toNat - 1 - y) = y := by omega
    have hbottom := row_flipped h (y := image.height.toNat - 1 - y) (by omega)
    rw [hback] at hbottom
    exact patches_exchange (chunk_fits (by omega) _) (h.row_fits (by omega)) htarget
      (row_flipped h (by omega)) hbottom
  · refine List.nodup_range.imp_of_mem fun {y y'} hy hy' hne i hi hi' => hne ?_
    rw [List.mem_range] at hy hy'
    simp only [Bytes.within_chunk hstride] at hi hi'
    omega
  · have hrow : i / image.rowBytes < image.height.toNat := by
      rw [Nat.div_lt_iff_lt_mul hstride, ← h.bytes_size_eq_rows]
      exact hlt
    have hmiddle := mirrored_of_unpaired hrow fun y hy => by
      have hout := hi y (List.mem_range.mpr hy)
      simpa only [Bytes.within_chunk hstride, not_or] using hout
    have hplace : i / image.depth.pixelBytes / image.width.toNat = i / image.rowBytes := by
      rw [Nat.div_div_eq_div_mul, rowBytes, Nat.mul_comm]
    refine h.getElem?_pixelBytes hlt ?_
    rw [hplace, hmiddle]

theorem flip_eq (h : image.WellFormed) (axis : Flip) :
    flip image axis = some (image.flip axis) := by
  rw [flip]
  split
  · rename_i hnull
    rw [h.eq_null hnull]
    cases axis <;> rfl
  · rename_i hnull
    rw [Bool.not_eq_true] at hnull
    cases axis with
    | horizontal => exact withBytes_eq h (flipHorizontal_eq h hnull)
    | vertical => exact withBytes_eq h (flipVertical_eq h hnull)

theorem upright_eq (h : image.WellFormed) (orientation : UInt16) :
    upright image orientation = some (image.upright? orientation) := by
  unfold upright Image.upright?
  split
  · rfl
  · simp only [flip_eq h, rotate_eq h, flip_eq (h.rotate _), Option.map_some, Option.bind_eq_bind,
      Option.bind_some]
    generalize orientation.toNat = code
    grind

end Checked

end Darkroom.Image
