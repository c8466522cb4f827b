import Darkroom.Proofs.Image.CheckedValues
import Darkroom.Proofs.Image.Overlap
import Darkroom.Proofs.Image.Symmetry

/-!
# Images at another depth

Going up loses nothing (`Color.toDepth_toDepth`), and coming down moves a value by half a step at
most (`downscale_near`). A converted image shows the old colors at the new depth
(`WellFormed.isConverted`), so that everything which moves pixels without looking at them can be
done before a conversion as well as after it (`WellFormed.convertDepth_rearranged`,
`convertDepth_blit`).
-/

namespace Darkroom

/-! ## Values and colors -/

theorem toNat_upscale {v : UInt16} (h : v.toNat ≤ 255) : (upscale v).toNat = v.toNat * 257 := by
  have hfactor : (257 : UInt16).toNat = 257 := rfl
  rw [upscale, UInt16.toNat_mul, hfactor]
  omega

theorem toNat_downscale (v : UInt16) : (downscale v).toNat = (v.toNat + 128) / 257 := by
  have := v.toNat_lt
  rw [downscale, UInt16.toNat_ofNat']
  omega

theorem downscale_le (v : UInt16) : (downscale v).toNat ≤ 255 := by
  have := v.toNat_lt
  rw [toNat_downscale]
  omega

/-- Going up and coming down again gives back every 8-bit value. -/
theorem downscale_upscale {v : UInt16} (h : v.toNat ≤ 255) : downscale (upscale v) = v := by
  apply UInt16.toNat_inj.mp
  rw [toNat_downscale, toNat_upscale h]
  omega

/-- Coming down and going up again moves a value by half a step at most. -/
theorem downscale_near (v : UInt16) :
    (upscale (downscale v)).toNat ≤ v.toNat + 128
      ∧ v.toNat ≤ (upscale (downscale v)).toNat + 128 := by
  rw [toNat_upscale (downscale_le v), toNat_downscale]
  omega

theorem Pixel.component_map (f : UInt16 → UInt16) (p : Pixel) (c : Component) :
    (p.map f).component c = f (p.component c) := by
  cases c <;> rfl

namespace Color

@[simp]
theorem depth_toDepth (c : Color) (depth : Depth) : (c.toDepth depth).depth = depth := by
  obtain ⟨p, old⟩ := c
  cases old <;> cases depth <;> rfl

/-- A color whose channels are values of its depth is converted to such a color. -/
theorem fits_toDepth {c : Color} (h : c.pixel.Fits c.depth) (depth : Depth) :
    (c.toDepth depth).pixel.Fits depth := by
  obtain ⟨p, old⟩ := c
  intro k
  cases old with
  | eight =>
    cases depth with
    | eight => exact h k
    | sixteen => exact Nat.le_of_lt_succ (UInt16.toNat_lt _)
  | sixteen =>
    cases depth with
    | eight =>
      show ((p.map downscale).component k).toNat ≤ 255
      rw [Pixel.component_map]
      exact downscale_le _
    | sixteen => exact h k

/-- A color at 8 bits is the same after it went up and came down. -/
theorem toDepth_toDepth {c : Color} (hdepth : c.depth = .eight) (h : c.pixel.Fits .eight) :
    (c.toDepth .sixteen).toDepth .eight = c := by
  obtain ⟨p, old⟩ := c
  obtain rfl : old = .eight := hdepth
  have hpixel : (p.map upscale).map downscale = p := by
    refine Pixel.ext_component fun k => ?_
    rw [Pixel.component_map, Pixel.component_map, downscale_upscale (h k)]
  exact congrArg (Color.mk · .eight) hpixel

/-- A color at 16 bits that came down and went up. -/
theorem component_toDepth_toDepth {c : Color} (hdepth : c.depth = .sixteen) (k : Component) :
    ((c.toDepth .eight).toDepth .sixteen).pixel.component k
      = upscale (downscale (c.pixel.component k)) := by
  obtain ⟨p, old⟩ := c
  obtain rfl : old = .sixteen := hdepth
  cases k <;> rfl

end Color

namespace Image

variable {image new source target : Image} {depth : Depth}

/-! ## Converted images -/

/-- Whether the bytes of an image are few enough to be held at a depth. An image of 8 bits may be
too large to have twice as many; the conversion of such an image gives null. -/
def HeldAt (image : Image) (depth : Depth) : Prop :=
  (byteLength? image.dimensions depth).isSome

theorem WellFormed.heldAt_eight (h : image.WellFormed) : image.HeldAt .eight := by
  obtain ⟨n, hn⟩ := Option.isSome_iff_exists.mp h.isSome_byteLength
  obtain ⟨rfl, hlt⟩ := byteLength?_eq_some.mp hn
  refine Option.isSome_iff_exists.mpr ⟨_, byteLength?_eq_some.mpr ⟨rfl, ?_⟩⟩
  cases hdepth : image.depth <;> rw [hdepth] at hlt <;> simp only [Depth.pixelBytes] at hlt ⊢ <;>
    omega

/-- The new image has the old colors, converted to depth `d`. With the frame this is all that can be
seen of an image. -/
structure IsConverted (new old : Image) (d : Depth) : Prop where
  dimensions : new.dimensions = old.dimensions
  depth : new.depth = d
  hasAlpha : new.hasAlpha = old.hasAlpha
  color : ∀ x < old.width.toNat, ∀ y < old.height.toNat,
    new.color x y = (old.color x y).toDepth d

theorem WellFormed.isConverted (h : image.WellFormed) (hnull : image.isNull = false)
    (hheld : image.HeldAt depth) : IsConverted (image.convertDepth depth) image depth := by
  by_cases hsame : image.depth = depth
  · obtain rfl := hsame
    rw [Image.convertDepth, if_pos (Or.inr rfl)]
    exact ⟨rfl, rfl, rfl, fun x y _ _ => (Checked.toDepth_self _).symm⟩
  · have hpos := h.isNull_eq_false_iff.mp hnull
    rw [Image.convertDepth, hnull, if_neg (by simpa using hsame)]
    refine ⟨?_, ?_, ?_, fun x hx y hy => ?_⟩
    · rw [Image.ofPixels_eq hheld hpos]
      rfl
    · rw [Image.ofPixels_eq hheld hpos]
    · rw [Image.ofPixels_eq hheld hpos]
    · rw [color, pixel_ofPixels hheld hx hy (Color.fits_toDepth (fits_pixel image x y) depth),
        Image.ofPixels_eq hheld hpos]
      exact congrArg (Color.mk _) (Color.depth_toDepth _ _).symm

/-- A well-formed image with the converted colors is the converted image. -/
theorem IsConverted.eq_convertDepth (h : IsConverted new image depth) (hnew : new.WellFormed)
    (himage : image.WellFormed) (hnull : image.isNull = false) (hheld : image.HeldAt depth) :
    new = image.convertDepth depth := by
  have hconverted := himage.isConverted hnull hheld
  obtain ⟨hwidth, hheight⟩ := Dimensions.mk.inj h.dimensions
  refine hnew.ext_pixels (himage.convertDepth depth)
    ⟨h.dimensions.trans hconverted.dimensions.symm, h.depth.trans hconverted.depth.symm,
      h.hasAlpha.trans hconverted.hasAlpha.symm⟩ fun x hx y hy => ?_
  rw [hwidth] at hx
  rw [hheight] at hy
  have hcolor := (h.color x hx y hy).trans (hconverted.color x hx y hy).symm
  exact congrArg Color.pixel hcolor

/-- Room depends on the size only. -/
theorem heldAt_congr {a b : Image} (h : a.dimensions = b.dimensions) :
    a.HeldAt depth ↔ b.HeldAt depth := by
  rw [HeldAt, HeldAt, h]

theorem convertDepth_of_isNull (h : image.isNull) (depth : Depth) :
    image.convertDepth depth = image := by
  rw [Image.convertDepth, if_pos (Or.inl h)]

/-- No bytes always find room. -/
theorem WellFormed.isNull_of_not_heldAt (h : image.WellFormed) (hheld : ¬image.HeldAt depth) :
    image.isNull = false := by
  cases hnull : image.isNull with
  | false => rfl
  | true =>
    rw [h.eq_null hnull] at hheld
    cases depth <;> exact absurd rfl hheld

/-- Without room for its bytes there is no converted image. -/
theorem WellFormed.convertDepth_of_not_heldAt (h : image.WellFormed) (hheld : ¬image.HeldAt depth) :
    image.convertDepth depth = null := by
  have hdepth : image.depth ≠ depth := by
    rintro rfl
    exact hheld h.isSome_byteLength
  rw [Image.convertDepth, h.isNull_of_not_heldAt hheld, if_neg (by simpa using hdepth), ofPixels,
    Option.not_isSome_iff_eq_none.mp hheld]

theorem WellFormed.dimensions_convertDepth (h : image.WellFormed) (hheld : image.HeldAt depth) :
    (image.convertDepth depth).dimensions = image.dimensions := by
  cases hnull : image.isNull with
  | true => rw [convertDepth_of_isNull hnull]
  | false => exact (h.isConverted hnull hheld).dimensions

theorem WellFormed.isNull_convertDepth (h : image.WellFormed) (hheld : image.HeldAt depth) :
    (image.convertDepth depth).isNull = image.isNull := by
  cases hnull : image.isNull with
  | true => rw [convertDepth_of_isNull hnull, hnull]
  | false =>
    rw [(h.convertDepth depth).isNull_eq_false_iff, pixelCount, h.dimensions_convertDepth hheld]
    exact h.isNull_eq_false_iff.mp hnull

/-! ## Two conversions -/

/-- Two conversions convert each color twice. -/
theorem IsConverted.color_again {old middle : Image} {d d' : Depth} (h : IsConverted middle old d)
    (h' : IsConverted new middle d') {x y : Nat} (hx : x < old.width.toNat)
    (hy : y < old.height.toNat) :
    new.color x y = ((old.color x y).toDepth d).toDepth d' := by
  obtain ⟨hwidth, hheight⟩ := Dimensions.mk.inj h.dimensions
  rw [h'.color x (hwidth ▸ hx) y (hheight ▸ hy), h.color x hx y hy]

/-- An image that went up comes down as it was. -/
theorem WellFormed.convertDepth_up_down (h : image.WellFormed) (hdepth : image.depth = .eight)
    (hheld : image.HeldAt .sixteen) :
    (image.convertDepth .sixteen).convertDepth .eight = image := by
  cases hnull : image.isNull with
  | true => rw [convertDepth_of_isNull hnull, convertDepth_of_isNull hnull]
  | false =>
    have hwell := h.convertDepth .sixteen
    have hup := h.isConverted hnull hheld
    have hdown : IsConverted image (image.convertDepth .sixteen) .eight := by
      obtain ⟨hwidth, hheight⟩ := Dimensions.mk.inj hup.dimensions
      refine ⟨hup.dimensions.symm, hdepth, hup.hasAlpha.symm, fun x hx y hy => ?_⟩
      rw [hup.color x (hwidth ▸ hx) y (hheight ▸ hy)]
      exact (Color.toDepth_toDepth hdepth (hdepth ▸ fits_pixel image x y)).symm
    exact (hdown.eq_convertDepth h hwell ((h.isNull_convertDepth hheld).trans hnull)
      hwell.heldAt_eight).symm

/-- An image that came down and goes up has the rounded channels. -/
theorem WellFormed.convertDepth_down_up (h : image.WellFormed) (hdepth : image.depth = .sixteen)
    {x y : Nat} (hx : x < image.width.toNat) (hy : y < image.height.toNat) (c : Component) :
    (((image.convertDepth .eight).convertDepth .sixteen).pixel x y).component c
      = upscale (downscale ((image.pixel x y).component c)) := by
  have hheld : image.HeldAt .sixteen := hdepth ▸ h.isSome_byteLength
  have hnull : image.isNull = false :=
    h.isNull_eq_false_iff.mpr (Nat.mul_pos (Nat.zero_lt_of_lt hx) (Nat.zero_lt_of_lt hy))
  have hwell := h.convertDepth .eight
  have hdown := h.isConverted hnull h.heldAt_eight
  have hup := hwell.isConverted ((h.isNull_convertDepth h.heldAt_eight).trans hnull)
    ((heldAt_congr hdown.dimensions).mpr hheld)
  have hcolor := congrArg Color.pixel (hdown.color_again hup hx hy)
  dsimp only [color] at hcolor
  rw [hcolor]
  exact Color.component_toDepth_toDepth hdepth c

/-- The second time an image comes down and goes up nothing is lost. -/
theorem WellFormed.convertDepth_down_up_again (h : image.WellFormed)
    (hdepth : image.depth = .sixteen) :
    (((image.convertDepth .eight).convertDepth .sixteen).convertDepth .eight).convertDepth .sixteen
      = (image.convertDepth .eight).convertDepth .sixteen := by
  have hheld : image.HeldAt .sixteen := hdepth ▸ h.isSome_byteLength
  have hnull : image.isNull = false := by
    cases hnull : image.isNull with
    | false => rfl
    | true =>
      rw [h.eq_null hnull] at hdepth
      cases hdepth
  have hdown := h.isConverted hnull h.heldAt_eight
  rw [(h.convertDepth .eight).convertDepth_up_down hdown.depth
    ((heldAt_congr hdown.dimensions).mpr hheld)]

/-! ## Conversions and moves -/

/-- Converted pixels, shown at given positions, are the pixels at these positions, converted. -/
theorem Shows.isConverted {old middle converted : Image} {d : Dimensions}
    {place : Nat → Nat → Nat × Nat} (hmiddle : Shows middle old d place)
    (hconverted : IsConverted converted old depth) (hnew : Shows new converted d place)
    (hinside : ∀ x < d.width.toNat, ∀ y < d.height.toNat,
      (place x y).1 < old.width.toNat ∧ (place x y).2 < old.height.toNat) :
    IsConverted new middle depth := by
  obtain ⟨hwidth, hheight⟩ := Dimensions.mk.inj hmiddle.dimensions
  refine ⟨hnew.dimensions.trans hmiddle.dimensions.symm, hnew.depth.trans hconverted.depth, ?_,
    fun x hx y hy => ?_⟩
  · rw [hnew.hasAlpha, hconverted.hasAlpha, hmiddle.hasAlpha]
  · rw [hwidth] at hx
    rw [hheight] at hy
    obtain ⟨hx', hy'⟩ := hinside x hx y hy
    rw [color, color, hnew.pixel x hx y hy, hnew.depth, hmiddle.pixel x hx y hy, hmiddle.depth]
    exact hconverted.color _ hx' _ hy'

/-- Pixels can be moved before they are converted, or after. -/
theorem WellFormed.convertDepth_rearranged (h : image.WellFormed) (hheld : image.HeldAt depth)
    {d : Dimensions} (hd : d.pixels ≤ image.pixelCount) {place : Nat → Nat → Nat × Nat}
    (hinside : ∀ x < d.width.toNat, ∀ y < d.height.toNat,
      (place x y).1 < image.width.toNat ∧ (place x y).2 < image.height.toNat) :
    (image.rearranged d place).convertDepth depth
      = (image.convertDepth depth).rearranged d place := by
  rcases Nat.eq_zero_or_pos d.pixels with hzero | hpos
  · have hnone : ∀ old : Image, old.rearranged d place = null := fun old =>
      ofPixels_of_pixels_eq_zero hzero _ _ _
    rw [hnone, hnone, convertDepth_of_isNull rfl]
  · have hwell := wellFormed_rearranged image d place
    have hmiddle := h.shows_rearranged hpos hd place
    have hconverted :=
      h.isConverted (h.isNull_eq_false_iff.mpr (Nat.lt_of_lt_of_le hpos hd)) hheld
    have hnew := (h.convertDepth depth).shows_rearranged hpos
      (by rwa [pixelCount, hconverted.dimensions]) place
    have hnull : (image.rearranged d place).isNull = false := by
      rw [hwell.isNull_eq_false_iff, pixelCount, hmiddle.dimensions]
      exact hpos
    have hroom : (image.rearranged d place).HeldAt depth :=
      byteLength?_of_le hheld (by rwa [hmiddle.dimensions])
    exact ((hmiddle.isConverted hconverted hnew hinside).eq_convertDepth
      (wellFormed_rearranged _ d place) hwell hnull hroom).symm

/-- Moving needs no room: an image too large to be converted is so after a move, too. -/
theorem WellFormed.convertDepth_moved (h : image.WellFormed) (s : Symmetry) (depth : Depth) :
    (image.moved s).convertDepth depth = (image.convertDepth depth).moved s := by
  have hpixels := s.pixels_frame image.dimensions
  by_cases hheld : image.HeldAt depth
  · have hmove := h.convertDepth_rearranged hheld (Nat.le_of_eq hpixels) fun x hx y hy =>
      s.shown_lt hx hy
    rw [moved, moved, hmove, h.dimensions_convertDepth hheld]
  · have hnull := h.isNull_of_not_heldAt hheld
    have hmoved : ¬(image.moved s).HeldAt depth := by
      rw [HeldAt, (h.shows_moved hnull s).dimensions, byteLength?, hpixels]
      exact hheld
    rw [(wellFormed_moved image s).convertDepth_of_not_heldAt hmoved,
      h.convertDepth_of_not_heldAt hheld, moved_null]

theorem WellFormed.convertDepth_rotate (h : image.WellFormed) (rotation : Rotation)
    (depth : Depth) :
    (image.rotate rotation).convertDepth depth = (image.convertDepth depth).rotate rotation := by
  rw [h.rotate_eq, (h.convertDepth depth).rotate_eq, h.convertDepth_moved]

theorem WellFormed.convertDepth_flip (h : image.WellFormed) (axis : Flip) (depth : Depth) :
    (image.flip axis).convertDepth depth = (image.convertDepth depth).flip axis := by
  rw [h.flip_eq, (h.convertDepth depth).flip_eq, h.convertDepth_moved]

/-- A part inside an image has no more pixels than it. -/
theorem WellFormed.convertDepth_part (h : image.WellFormed) (hheld : image.HeldAt depth)
    {area : Rect} (hinside : area.Inside image.dimensions) :
    (image.part area).convertDepth depth = (image.convertDepth depth).part area := by
  obtain ⟨hx, hy, hwidth, hheight, hright, hbottom⟩ := hinside
  have hcolumns := toNat_toUInt32 area.width (Int.le_of_lt hwidth)
  have hrows := toNat_toUInt32 area.height (Int.le_of_lt hheight)
  have hpart : ∀ old : Image, old.part area
      = old.rearranged ⟨area.width.toUInt32, area.height.toUInt32⟩ fun x y =>
        (area.x.toInt.toNat + x, area.y.toInt.toNat + y) := fun _ => rfl
  dsimp only [dimensions] at hright hbottom
  rw [hpart, hpart]
  refine h.convertDepth_rearranged hheld ?_ fun x hx' y hy' => ?_
  · refine Nat.mul_le_mul ?_ ?_ <;> dsimp only [dimensions] <;> omega
  · dsimp only at hx' hy' ⊢
    omega

/-- A part can be taken before a conversion, or after. -/
theorem WellFormed.convertDepth_copy (h : image.WellFormed) (hheld : image.HeldAt depth)
    (rect : Option Rect) :
    (image.copy rect).convertDepth depth = (image.convertDepth depth).copy rect := by
  -- Both images have the same size, so the same is copied of both.
  rw [copy_eq_copied, copy_eq_copied, h.isNull_convertDepth hheld, h.dimensions_convertDepth hheld]
  split
  · exact convertDepth_of_isNull rfl depth
  split
  · exact convertDepth_of_isNull rfl depth
  split
  · rfl
  · rename_i hempty hpart
    exact h.convertDepth_part hheld (Rect.inside_copied hpart (Bool.eq_false_iff.mpr hempty))

/-- A blit copies colors. -/
theorem blit_color (htarget : target.WellFormed) (ht : target.isNull = false)
    (hs : source.isNull = false) (hdepth : target.depth = source.depth) (rect : Rect)
    (corner : Point) :
    ∃ new, target.blit source rect corner = .ok new ∧ Keeps [] target new
      ∧ ∀ x < target.width.toNat, ∀ y < target.height.toNat,
        new.color x y
          = if Reaches source rect corner x y then
              source.color (under rect corner x y).1.toNat (under rect corner x y).2.toNat
            else target.color x y := by
  obtain ⟨new, hnew, hkeeps, hpixel⟩ := blit_spec htarget ht hs hdepth rect corner
  refine ⟨new, hnew, hkeeps, fun x hx y hy => ?_⟩
  rw [color, hpixel x hx y hy, hkeeps.depth]
  split
  · rw [color, hdepth]
  · rfl

/-- Two images can be put together before both are converted, or after. -/
theorem WellFormed.convertDepth_blit (htarget : target.WellFormed) (hsource : source.WellFormed)
    (ht : target.HeldAt depth) (hs : source.HeldAt depth) (hdepth : target.depth = source.depth)
    (rect : Rect) (corner : Point) :
    (target.convertDepth depth).blit (source.convertDepth depth) rect corner
      = (target.blit source rect corner).map (·.convertDepth depth) := by
  by_cases hnull : target.isNull ∨ source.isNull
  · have hnull' : (target.convertDepth depth).isNull ∨ (source.convertDepth depth).isNull := by
      rwa [htarget.isNull_convertDepth ht, hsource.isNull_convertDepth hs]
    rw [(change_of_placeFault? (placeFault?_of_isNull hnull) rect corner).1,
      (change_of_placeFault? (placeFault?_of_isNull hnull') rect corner).1]
    rfl
  rw [not_or, Bool.not_eq_true, Bool.not_eq_true] at hnull
  obtain ⟨htnull, hsnull⟩ := hnull
  have htnull' := (htarget.isNull_convertDepth ht).trans htnull
  have hsnull' := (hsource.isNull_convertDepth hs).trans hsnull
  have hconverted := htarget.isConverted htnull ht
  have hconverted' := hsource.isConverted hsnull hs
  obtain ⟨new, hnew, hkeeps, hcolor⟩ :=
    blit_color htarget htnull hsnull hdepth rect corner
  obtain ⟨new', hnew', hkeeps', hcolor'⟩ :=
    blit_color (htarget.convertDepth depth) htnull' hsnull'
      (hconverted.depth.trans hconverted'.depth.symm) rect corner
  have hlast : IsConverted new' new depth := by
    obtain ⟨hwidth, hheight⟩ := Dimensions.mk.inj hconverted.dimensions
    refine ⟨?_, hkeeps'.depth.trans hconverted.depth, ?_, fun x hx y hy => ?_⟩
    · rw [hkeeps'.dimensions, hconverted.dimensions, hkeeps.dimensions]
    · rw [hkeeps'.hasAlpha, hconverted.hasAlpha, hkeeps.hasAlpha]
    · rw [hkeeps.width] at hx
      rw [hkeeps.height] at hy
      rw [hcolor x hx y hy, hcolor' x (hwidth ▸ hx) y (hheight ▸ hy),
        if_congr (reaches_congr hconverted'.dimensions) rfl rfl]
      split
      · rename_i hreaches
        exact hconverted'.color _ hreaches.inside.1 _ hreaches.inside.2
      · exact hconverted.color x hx y hy
  rw [hnew, hnew']
  exact congrArg Except.ok (hlast.eq_convertDepth ((htarget.convertDepth depth).blit hnew')
    (htarget.blit hnew) (hkeeps.isNull.trans htnull) ((heldAt_congr hkeeps.dimensions).mpr ht))

/-- Every image whose bytes can be held at another depth has its colors there, one by one, and that
is what the loop over values makes. To 16 bits and back an image is as it was. To 8 bits and back
each channel moves by half a step at most, and the second time it does not move. Rotations, flips,
copies of any rectangle and blits of one image into another, of the same depth, can be done before a
conversion or after it; a blit of another depth is refused, so there is nothing to convert. -/
theorem convertDepth_natural {image : Image} (h : image.WellFormed) :
    (∀ depth, Checked.convertDepth image depth = some (image.convertDepth depth)
        ∧ (image.isNull → image.convertDepth depth = image)
        ∧ (image.isNull = false → image.HeldAt depth →
          IsConverted (image.convertDepth depth) image depth))
      ∧ (image.depth = .eight → image.HeldAt .sixteen →
        (image.convertDepth .sixteen).convertDepth .eight = image)
      ∧ (image.depth = .sixteen →
        (∀ x < image.width.toNat, ∀ y < image.height.toNat, ∀ c,
          let old := ((image.pixel x y).component c).toNat
          let back := (image.convertDepth .eight).convertDepth .sixteen
          let new := ((back.pixel x y).component c).toNat
          new ≤ old + 128 ∧ old ≤ new + 128)
        ∧ (((image.convertDepth .eight).convertDepth .sixteen).convertDepth .eight).convertDepth
            .sixteen
          = (image.convertDepth .eight).convertDepth .sixteen)
      ∧ (∀ depth rotation,
        (image.rotate rotation).convertDepth depth = (image.convertDepth depth).rotate rotation)
      ∧ (∀ depth axis,
        (image.flip axis).convertDepth depth = (image.convertDepth depth).flip axis)
      ∧ (∀ depth rect, image.HeldAt depth →
        (image.copy rect).convertDepth depth = (image.convertDepth depth).copy rect)
      ∧ ∀ (depth : Depth) (source : Image) (rect : Rect) (corner : Point), source.WellFormed →
        image.HeldAt depth → source.HeldAt depth →
        (image.depth = source.depth →
          (image.convertDepth depth).blit (source.convertDepth depth) rect corner
            = (image.blit source rect corner).map (·.convertDepth depth))
        ∧ (image.depth ≠ source.depth → ∀ new, image.blit source rect corner ≠ .ok new) := by
  refine ⟨fun depth => ⟨Checked.convertDepth_eq h depth, fun hnull => ?_, fun hnull hheld => ?_⟩,
    h.convertDepth_up_down, fun hdepth => ⟨fun x hx y hy c => ?_, ?_⟩, fun depth rotation => ?_,
    fun depth axis => ?_, fun depth rect hheld => h.convertDepth_copy hheld rect,
    fun depth source rect corner hsource ht hs => ⟨fun hdepth => ?_, fun hdepth new hnew => ?_⟩⟩
  · exact convertDepth_of_isNull hnull depth
  · exact h.isConverted hnull hheld
  · dsimp only
    rw [h.convertDepth_down_up hdepth hx hy]
    exact downscale_near _
  · exact h.convertDepth_down_up_again hdepth
  · exact h.convertDepth_rotate rotation depth
  · exact h.convertDepth_flip axis depth
  · exact h.convertDepth_blit hsource ht hs hdepth rect corner
  · exact hdepth (depth_of_blit hnew)

def deep : Image :=
  ⟨1, 1, .sixteen, true, #[129, 0, 1, 1, 255, 255, 0, 0]⟩

/-- Half a step is lost where it has to be, and only once; 8-bit pixels lose nothing, also when they
are cut out meanwhile. -/
theorem convertDepth_natural_deep :
    deep.WellFormed ∧ landscape.WellFormed ∧ landscape.HeldAt .sixteen
      ∧ (((deep.convertDepth .eight).convertDepth .sixteen).pixel 0 0).blue.toNat ≤ 257
      ∧ (landscape.convertDepth .sixteen).convertDepth .eight = landscape
      ∧ (landscape.copy (some ⟨1, 0, 9, 1⟩)).convertDepth .sixteen
        = (landscape.convertDepth .sixteen).copy (some ⟨1, 0, 9, 1⟩) := by
  have hdeep : deep.WellFormed := Or.inr (by decide)
  have hlandscape : landscape.WellFormed := Or.inr (by decide)
  have hheld : landscape.HeldAt .sixteen := rfl
  obtain ⟨-, -, hback, -⟩ := convertDepth_natural hdeep
  obtain ⟨-, hround, -, -, -, hcopy, -⟩ := convertDepth_natural hlandscape
  obtain ⟨hnear, -⟩ := hback rfl
  exact ⟨hdeep, hlandscape, hheld, (hnear 0 (by decide) 0 (by decide) .blue).1, hround rfl hheld,
    hcopy .sixteen _ hheld⟩

end Image

end Darkroom
