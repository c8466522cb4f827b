import Darkroom.Proofs.Image.CheckedMoves

/-!
# No index leaves an image when its values are taken apart

Another depth and another size go through the list of channel values. The values of a well-formed image
are those of its pixels (`values?_eq`), and values that are the channels of pixels make the bytes of
these (`ofValues_eq`).
-/

namespace Darkroom

/-! ## Bytes of values -/

namespace Bytes

/-- The byte with a given number among those of values one after the other. It is stated for the
list of values, so it need not be said how the bytes of one value are put together. -/
def byteOfValues (depth : Depth) (values : List UInt16) (i : Nat) : Option UInt8 :=
  match depth with
  | .eight => values[i]?.map (·.toUInt8)
  | .sixteen => values[i / 2]?.map fun (v : UInt16) => if i % 2 = 0 then v.toUInt8 else (v >>> 8).toUInt8

theorem getElem?_ofValues (depth : Depth) (values : List UInt16) (i : Nat) :
    (ofValues depth values)[i]? = byteOfValues depth values i := by
  rw [ofValues, List.getElem?_toArray]
  induction values generalizing i with
  | nil => cases depth <;> rfl
  | cons v values ih =>
    rw [List.flatMap_cons]
    cases depth with
    | eight =>
      cases i with
      | zero => rfl
      | succ i => exact ih i
    | sixteen =>
      match i with
      | 0 => rfl
      | 1 => rfl
      | i + 2 =>
        have hrest := ih i
        simp only [ofValue, byteOfValues] at hrest ⊢
        rw [Nat.add_div_right i (by decide : 0 < 2), Nat.add_mod_right]
        exact hrest

end Bytes

namespace Pixel

theorem channel_read_eight (data : Array UInt8) (start : Nat) {k : Nat} (hk : k < 4) :
    (read .eight data start).channel k = (data.getD (start + k) 0).toUInt16 := by
  match k, hk with
  | 0, _ | 1, _ | 2, _ | 3, _ => rfl

theorem channel_read_sixteen (data : Array UInt8) (start : Nat) {k : Nat} (hk : k < 4) :
    (read .sixteen data start).channel k
      = word (data.getD (start + k * 2) 0) (data.getD (start + k * 2 + 1) 0) := by
  match k, hk with
  | 0, _ | 1, _ | 2, _ | 3, _ => rfl

theorem channel_map (f : UInt16 → UInt16) (p : Pixel) (k : Nat) :
    (p.map f).channel k = f (p.channel k) := by
  match k with
  | 0 | 1 | 2 | _ + 3 => rfl

end Pixel

namespace Image

/-! ## The values of an image -/

variable {image : Image}

def channels (image : Image) : List UInt16 :=
  (List.range (image.pixelCount * 4)).map fun i =>
    (image.pixel (i / 4 % image.width.toNat) (i / 4 / image.width.toNat)).channel (i % 4)

theorem getElem?_channels {i : Nat} (hi : i < image.pixelCount * 4) :
    image.channels[i]? = some ((image.pixel (i / 4 % image.width.toNat)
      (i / 4 / image.width.toNat)).channel (i % 4)) := by
  rw [channels, List.getElem?_map, List.getElem?_range hi, Option.map_some]

@[simp]
theorem length_channels : image.channels.length = image.pixelCount * 4 := by
  rw [channels, List.length_map, List.length_range]

theorem channel_pixel_eight (h : image.depth = .eight) (i : Nat) :
    (image.pixel (i / 4 % image.width.toNat) (i / 4 / image.width.toNat)).channel (i % 4)
      = (image.bytes.getD i 0).toUInt16 := by
  have hindex : i / 4 * 4 + i % 4 = i := Nat.div_add_mod' i 4
  rw [pixel, offset, h, Pixel.channel_read_eight _ _ (Nat.mod_lt _ (by decide)), index_of_place]
  rw [Depth.pixelBytes, hindex]

theorem channel_pixel_sixteen (h : image.depth = .sixteen) (i : Nat) :
    (image.pixel (i / 4 % image.width.toNat) (i / 4 / image.width.toNat)).channel (i % 4)
      = Pixel.word (image.bytes.getD (i * 2) 0) (image.bytes.getD (i * 2 + 1) 0) := by
  have hindex : i / 4 * 8 + i % 4 * 2 = i * 2 := by omega
  rw [pixel, offset, h, Pixel.channel_read_sixteen _ _ (Nat.mod_lt _ (by decide)), index_of_place]
  rw [Depth.pixelBytes, hindex]

theorem values?_eq (h : image.WellFormed) :
    Bytes.values? image.depth image.bytes = some image.channels := by
  have hsize := h.bytes_size
  cases hdepth : image.depth with
  | eight =>
    rw [hdepth] at hsize
    rw [Bytes.values?, Option.some_inj]
    apply List.ext_getElem?
    intro i
    rw [channels, List.getElem?_map, List.getElem?_map]
    by_cases hi : i < image.bytes.size
    · rw [List.getElem?_range (hsize ▸ hi), Option.map_some, channel_pixel_eight hdepth,
        Array.getElem?_toList, Array.getElem?_eq_getElem hi, Array.getD_eq_getD_getElem?,
        Array.getElem?_eq_getElem hi]
      rfl
    · rw [Array.getElem?_toList, Array.getElem?_eq_none (by omega), List.getElem?_eq_none]
      · rfl
      · rw [List.length_range]
        exact hsize ▸ Nat.le_of_not_lt hi
  | sixteen =>
    rw [hdepth] at hsize
    have hcount : image.bytes.size / 2 = image.pixelCount * 4 := by
      rw [hsize, Depth.pixelBytes]
      omega
    rw [Bytes.values?, channels, hcount]
    refine Bytes.mapM_eq_some fun k hk => ?_
    have hfit : k * 2 + 2 ≤ image.bytes.size := by
      rw [List.mem_range] at hk
      omega
    rw [channel_pixel_sixteen hdepth, Bytes.slice?_eq hfit, Option.map_some]
    simp only [Array.getD_eq_getD_getElem?, Bytes.getElem?_slice hfit (by decide : 0 < 2),
      Bytes.getElem?_slice hfit (by decide : 1 < 2), Nat.add_zero]

/-- Values that are the channels of pixels. -/
theorem ofValues_eq {w h : Nat} {depth : Depth} {f : Nat → Nat → Pixel} {values : List UInt16}
    (hlength : values.length = w * h * 4)
    (hvalues : ∀ i < w * h * 4, values[i]? = some ((f (i / 4 % w) (i / 4 / w)).channel (i % 4))) :
    Bytes.ofValues depth values = pixelBytes w h depth f := by
  apply Array.ext_getElem?
  intro i
  rw [Bytes.getElem?_ofValues]
  by_cases hi : i < w * h * depth.pixelBytes
  · rw [getElem?_pixelBytes hi]
    cases depth with
    | eight =>
      rw [Bytes.byteOfValues, hvalues i hi]
      rfl
    | sixteen =>
      rw [Depth.pixelBytes] at hi
      have hpixel : i / 2 / 4 = i / 8 := by omega
      have hchannel : i / 2 % 4 = i % 8 / 2 := by omega
      have hbyte : i % 2 = i % 8 % 2 := by omega
      rw [Bytes.byteOfValues, hvalues (i / 2) (by omega), hpixel, hchannel, hbyte]
      rfl
  · rw [Array.getElem?_eq_none (by rw [size_pixelBytes]; omega)]
    cases depth with
    | eight =>
      rw [Depth.pixelBytes] at hi
      rw [Bytes.byteOfValues, List.getElem?_eq_none (by omega)]
      rfl
    | sixteen =>
      rw [Depth.pixelBytes] at hi
      rw [Bytes.byteOfValues, List.getElem?_eq_none (by omega)]
      rfl

/-- Bytes of the right number are taken over. -/
theorem ofBytes_pixelBytes (d : Dimensions) (depth : Depth) (hasAlpha : Bool)
    (f : Nat → Nat → Pixel) :
    ofBytes d depth hasAlpha (pixelBytes d.width.toNat d.height.toNat depth f)
      = ofPixels d depth hasAlpha f := by
  rw [ofBytes, size_pixelBytes, ofPixels]
  cases hlen : byteLength? d depth with
  | none => rfl
  | some n =>
    have hn : n = d.width.toNat * d.height.toNat * depth.pixelBytes :=
      (byteLength?_eq_some.mp hlen).1
    rw [← hn]
    dsimp only
    split
    · rename_i hpos
      rw [if_neg (by omega)]
    · rename_i hzero
      rw [if_pos (by simpa using hzero)]

/-- The samples of an image are its channel values. -/
theorem samples_eq (image : Image) :
    (image.channels.map fun v => Float32.ofNat v.toNat).toArray = image.samples := by
  apply Array.ext_getElem?
  intro i
  rw [List.getElem?_toArray, List.getElem?_map, samples, Array.getElem?_ofFn]
  split
  · rename_i hi
    rw [getElem?_channels hi]
    rfl
  · rw [List.getElem?_eq_none (by rw [length_channels]; omega)]
    rfl

theorem size_resampled (w h w' h' : Nat) (samples : Array Float32) :
    (resampled w h w' h' samples).size = h' * 4 * w' :=
  Array.size_ofFn

/-- Resampled values are the channels of the resized pixels. -/
theorem ofValues_samples {depth : Depth} {w h : Nat} {both : Array Float32} {g : Float32 → UInt16}
    (hsize : both.size = h * 4 * w) :
    Bytes.ofValues depth (both.toList.map g)
      = pixelBytes w h depth fun x y =>
        ⟨g (both.getD ((y * w + x) * 4) 0.0), g (both.getD ((y * w + x) * 4 + 1) 0.0),
          g (both.getD ((y * w + x) * 4 + 2) 0.0), g (both.getD ((y * w + x) * 4 + 3) 0.0)⟩ := by
  have hcount : both.size = w * h * 4 := by
    rw [hsize, Nat.mul_comm h 4, Nat.mul_assoc, Nat.mul_comm h w, Nat.mul_comm]
  refine ofValues_eq (by rw [List.length_map, Array.length_toList, hcount]) fun i hi => ?_
  rw [← hcount] at hi
  have hindex : i / 4 * 4 + i % 4 = i := Nat.div_add_mod' i 4
  have hvalue : (both.toList.map g)[i]? = some (g (both.getD (i / 4 * 4 + i % 4) 0.0)) := by
    rw [hindex, List.getElem?_map, Array.getElem?_toList, Array.getD_eq_getD_getElem?,
      Array.getElem?_eq_getElem hi]
    rfl
  rw [hvalue, index_of_place (w := w) (i := i / 4)]
  match i % 4, Nat.mod_lt i (by decide : 0 < 4) with
  | 0, _ | 1, _ | 2, _ | 3, _ => rfl

namespace Checked

theorem pixel_toDepth {depth : Depth} (hdepth : image.depth ≠ depth) (x y : Nat) :
    ((image.color x y).toDepth depth).pixel = (image.pixel x y).map (rescale depth) := by
  unfold color Color.toDepth
  cases hold : image.depth <;> cases depth
  · exact absurd hold hdepth
  · rfl
  · rfl
  · exact absurd hold hdepth

theorem convertDepth_eq (h : image.WellFormed) (depth : Depth) :
    convertDepth image depth = some (image.convertDepth depth) := by
  rw [convertDepth, Image.convertDepth]
  split
  · rfl
  rename_i hsame
  rw [not_or, Bool.not_eq_true] at hsame
  have hpos := h.isNull_eq_false_iff.mp hsame.1
  cases hlen : byteLength? image.dimensions depth with
  | none => rw [if_pos Option.isNone_none, ofPixels, hlen]
  | some n =>
    have hn := (byteLength?_eq_some.mp hlen).1
    have hne : n ≠ 0 := by
      rw [hn]
      exact Nat.ne_of_gt (Nat.mul_pos hpos depth.pixelBytes_pos)
    have hbytes : Bytes.ofValues depth (image.channels.map (rescale depth))
        = pixelBytes image.width.toNat image.height.toNat depth fun x y =>
          ((image.color x y).toDepth depth).pixel := by
      refine ofValues_eq (by rw [List.length_map, length_channels]; rfl) fun i hi => ?_
      rw [List.getElem?_map, getElem?_channels hi, pixel_toDepth hsame.2, Pixel.channel_map]
      rfl
    rw [if_neg (by simp), values?_eq h, Option.bind_eq_bind, Option.bind_some, hbytes]
    simp only [ofPixels, hlen, if_neg hne]
    rfl

theorem resize_eq (h : image.WellFormed) (d : Dimensions) :
    resize image d = some (image.resize d) := by
  rw [resize, Image.resize]
  split
  · rfl
  split
  · rfl
  rename_i hsize hsame
  rw [not_or, not_or, Bool.not_eq_true] at hsize
  rw [values?_eq h, Option.bind_eq_bind, Option.bind_some,
    if_neg (by rw [length_channels]; omega)]
  simp only [samples_eq, ofValues_samples (size_resampled _ _ _ _ _), ofBytes_pixelBytes]

/-! ## Single bytes -/

theorem setByte_eq (image : Image) {index : Nat} (hindex : index < image.bytes.size)
    (value : UInt8) :
    withBytes image (Bytes.put? image.bytes index #[value]) = some (image.setByte index value) := by
  have hfit : index + #[value].size ≤ image.bytes.size := hindex
  obtain ⟨new, hput, hsize, hin, hout⟩ := Bytes.put?_spec hfit
  have hnew : new = image.bytes.setIfInBounds index value := by
    refine Bytes.eq_of_getElem? (hsize.trans Array.size_setIfInBounds.symm) fun i hi => ?_
    rw [hsize] at hi
    rw [Array.getElem?_setIfInBounds]
    split
    · rename_i heq
      rw [← heq]
      exact hin 0 Nat.zero_lt_one
    · rename_i hne
      refine hout i fun hwithin => hne ?_
      have := hwithin.1
      have : i < index + 1 := hwithin.2
      omega
  rw [hput, hnew]
  rfl

end Checked

/-! ## Edits -/

def Edit.sources : Edit → List Image
  | load new => [new]
  | copyFrom source _ | blit source _ _ | blend source _ _ => [source]
  | _ => []

theorem Edit.wellFormed_of_sources {e : Edit} (h : ∀ source ∈ e.sources, source.WellFormed) :
    e.WellFormed := by
  cases e with
  | load new => exact h new List.mem_cons_self
  | copyFrom source rect => exact h source List.mem_cons_self
  | _ => trivial

/-- An edit with checked indices is the edit. -/
theorem Edit.checked_eq {e : Edit} (h : image.WellFormed)
    (hsources : ∀ source ∈ e.sources, source.WellFormed) (hrange : e.InRange image) :
    e.checked image = some (e.result image) := by
  cases e with
  | load new => rfl
  | copyFrom source rect => exact Checked.copy_eq (hsources source List.mem_cons_self) rect
  | crop rect => exact Checked.copy_eq h (some rect)
  | setPixel x y color => exact Checked.setPixel_eq h hrange.1 hrange.2 color
  | fill color => exact Checked.fill_eq h color
  | setByte index value => exact Checked.setByte_eq image hrange value
  | blit source rect corner =>
    rw [checked, Checked.blit_eq h (hsources source List.mem_cons_self)]
    rfl
  | blend source rect corner =>
    rw [checked, Checked.blend_eq h (hsources source List.mem_cons_self)]
    rfl
  | rotate rotation => exact Checked.rotate_eq h rotation
  | flip axis => exact Checked.flip_eq h axis
  | upright orientation =>
    rw [checked, Checked.upright_eq h]
    rfl
  | removeAlpha background => exact Checked.removeAlpha_eq h background
  | convertDepth depth => exact Checked.convertDepth_eq h depth
  | resize d => exact Checked.resize_eq h d

end Image

end Darkroom
