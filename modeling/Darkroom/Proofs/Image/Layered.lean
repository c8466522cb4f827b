import Darkroom.Proofs.Image.Depth

/-!
# Pixels laid over others

A channel of a pixel that is laid over another one is made of shares of both, and shares that make
up a whole lie between what they are taken from (`shares_between`), also after rounding
(`rounded_between`). So the new pixel lies between the two and has at least the alpha of each
(`laidOver_layered`); it is the upper pixel if that has full alpha, and the lower one if it has
none.
-/

namespace Darkroom

theorem Depth.maxValue_pos (depth : Depth) : 0 < depth.maxValue := by
  cases depth <;> decide

theorem Depth.maxValue_lt (depth : Depth) : depth.maxValue < 65536 := by
  cases depth <;> decide

namespace Pixel

variable {depth : Depth} {upper lower : Pixel}

/-! ## Rounded shares -/

/-- Shares of two values that make up a whole lie between the bounds of both. -/
theorem shares_between {a b low high share whole : Nat} (hlow : low ≤ a ∧ low ≤ b)
    (hhigh : a ≤ high ∧ b ≤ high) (hshare : share ≤ whole) :
    low * whole ≤ a * share + b * (whole - share)
      ∧ a * share + b * (whole - share) ≤ high * whole := by
  obtain ⟨rest, rfl⟩ := Nat.exists_eq_add_of_le hshare
  rw [Nat.add_sub_cancel_left, Nat.mul_add, Nat.mul_add]
  exact ⟨Nat.add_le_add (Nat.mul_le_mul_right _ hlow.1) (Nat.mul_le_mul_right _ hlow.2),
    Nat.add_le_add (Nat.mul_le_mul_right _ hhigh.1) (Nat.mul_le_mul_right _ hhigh.2)⟩

/-- Rounding to the nearest stays between whole bounds. -/
theorem rounded_between {n low high whole : Nat} (hpos : 0 < whole) (hlow : low * whole ≤ n)
    (hhigh : n ≤ high * whole) :
    low ≤ (n + whole / 2) / whole ∧ (n + whole / 2) / whole ≤ high := by
  constructor
  · rw [Nat.le_div_iff_mul_le hpos]
    omega
  · rw [← Nat.lt_succ_iff, Nat.div_lt_iff_lt_mul hpos, Nat.succ_mul]
    omega

/-- A value is the rounded quotient of its own multiple. -/
theorem rounded_mul {whole : Nat} (hpos : 0 < whole) (n : Nat) :
    (n * whole + whole / 2) / whole = n :=
  have hbetween := rounded_between hpos (Nat.le_refl (n * whole)) (Nat.le_refl (n * whole))
  Nat.le_antisymm hbetween.2 hbetween.1

/-- The alpha that two alphas have together is not below either of them. -/
theorem le_joined {a b whole : Nat} (hpos : 0 < whole) (ha : a ≤ whole) (hb : b ≤ whole) :
    b ≤ a + (b * (whole - a) + whole / 2) / whole := by
  rcases Nat.le_total b a with hle | hle
  · exact Nat.le_trans hle (Nat.le_add_right _ _)
  · obtain ⟨more, rfl⟩ := Nat.exists_eq_add_of_le hle
    obtain ⟨rest, rfl⟩ := Nat.exists_eq_add_of_le ha
    have hmore : more * a ≤ a * rest := by
      rw [Nat.mul_comm]
      exact Nat.mul_le_mul_left a (by omega)
    refine Nat.add_le_add_left ?_ a
    rw [Nat.add_sub_cancel_left, Nat.le_div_iff_mul_le hpos, Nat.mul_add, Nat.add_mul]
    omega

/-! ## Channels -/

theorem Fits.alpha {p : Pixel} (h : p.Fits depth) : p.alpha.toNat ≤ depth.maxValue :=
  h .alpha

/-- What a channel is before it is stored. -/
theorem toNat_mix {whole alpha : Nat} {u l : UInt16} (hpos : 0 < whole) (hwhole : whole < 65536)
    (halpha : alpha ≤ whole) (hu : u.toNat ≤ whole) (hl : l.toNat ≤ whole) :
    (mix whole alpha u l).toNat
      = (u.toNat * alpha + l.toNat * (whole - alpha) + whole / 2) / whole := by
  obtain ⟨-, hhigh⟩ := shares_between ⟨Nat.zero_le _, Nat.zero_le _⟩ ⟨hu, hl⟩ halpha
  obtain ⟨-, hle⟩ := rounded_between hpos (Nat.zero_mul whole ▸ Nat.zero_le _) hhigh
  rw [mix, Nat.min_eq_left halpha, UInt16.toNat_ofNat']
  exact Nat.mod_eq_of_lt (Nat.lt_of_le_of_lt hle hwhole)

theorem toNat_component_layered (hu : upper.Fits depth) (hl : lower.Fits depth) {c : Component}
    (hc : c ≠ .alpha) :
    ((layered depth.maxValue upper lower).component c).toNat
      = ((upper.component c).toNat * upper.alpha.toNat
          + (lower.component c).toNat * (depth.maxValue - upper.alpha.toNat)
          + depth.maxValue / 2) / depth.maxValue := by
  have hmix : (layered depth.maxValue upper lower).component c
      = mix depth.maxValue upper.alpha.toNat (upper.component c) (lower.component c) := by
    cases c with
    | alpha => exact absurd rfl hc
    | red | green | blue => rfl
  rw [hmix, toNat_mix depth.maxValue_pos depth.maxValue_lt hu.alpha (hu c) (hl c)]

theorem toNat_alpha_layered (hu : upper.Fits depth) (lower : Pixel) :
    (layered depth.maxValue upper lower).alpha.toNat
      = min (upper.alpha.toNat
          + (lower.alpha.toNat * (depth.maxValue - upper.alpha.toNat) + depth.maxValue / 2)
            / depth.maxValue) depth.maxValue := by
  simp only [layered, Nat.min_eq_left hu.alpha, UInt16.toNat_ofNat']
  exact Nat.mod_eq_of_lt (Nat.lt_of_le_of_lt (Nat.min_le_right _ _) depth.maxValue_lt)

/-! ## Pixels -/

/-- Nothing of the lower pixel is seen through full alpha. -/
theorem layered_of_full (hu : upper.Fits depth) (hl : lower.Fits depth)
    (hfull : upper.alpha.toNat = depth.maxValue) :
    layered depth.maxValue upper lower = upper := by
  refine ext_component fun c => UInt16.toNat_inj.mp ?_
  by_cases hc : c = .alpha
  · have halpha := toNat_alpha_layered hu lower
    rw [hfull, Nat.min_eq_right (Nat.le_add_right _ _)] at halpha
    rw [hc]
    exact halpha.trans hfull.symm
  · rw [toNat_component_layered hu hl hc, hfull, Nat.sub_self, Nat.mul_zero, Nat.add_zero,
      rounded_mul depth.maxValue_pos]

/-- Nothing of an upper pixel without alpha is seen. -/
theorem layered_of_clear (hu : upper.Fits depth) (hl : lower.Fits depth)
    (hclear : upper.alpha.toNat = 0) : layered depth.maxValue upper lower = lower := by
  refine ext_component fun c => UInt16.toNat_inj.mp ?_
  by_cases hc : c = .alpha
  · have halpha := toNat_alpha_layered hu lower
    rw [hclear, Nat.sub_zero, rounded_mul depth.maxValue_pos, Nat.zero_add,
      Nat.min_eq_left hl.alpha] at halpha
    rw [hc]
    exact halpha
  · rw [toNat_component_layered hu hl hc, hclear, Nat.mul_zero, Nat.zero_add, Nat.sub_zero,
      rounded_mul depth.maxValue_pos]

/-- The new pixel lies between two others, and its alpha above both. It is the upper one if that has
full alpha, and the lower one if the upper has none. -/
structure LaidOver (depth : Depth) (upper lower new : Pixel) : Prop where
  color : ∀ c ≠ Component.alpha,
    min (upper.component c).toNat (lower.component c).toNat ≤ (new.component c).toNat
      ∧ (new.component c).toNat ≤ max (upper.component c).toNat (lower.component c).toNat
  upperAlpha : upper.alpha.toNat ≤ new.alpha.toNat
  lowerAlpha : lower.alpha.toNat ≤ new.alpha.toNat
  inRange : new.alpha.toNat ≤ depth.maxValue
  full : upper.alpha.toNat = depth.maxValue → new = upper
  clear : upper.alpha.toNat = 0 → new = lower

theorem laidOver_layered (hu : upper.Fits depth) (hl : lower.Fits depth) :
    LaidOver depth upper lower (layered depth.maxValue upper lower) := by
  have hpos := depth.maxValue_pos
  have halpha := toNat_alpha_layered hu lower
  refine ⟨fun c hc => ?_, ?_, ?_, ?_, layered_of_full hu hl, layered_of_clear hu hl⟩
  · obtain ⟨hlow, hhigh⟩ := shares_between
      (a := (upper.component c).toNat) (b := (lower.component c).toNat)
      ⟨Nat.min_le_left _ _, Nat.min_le_right _ _⟩ ⟨Nat.le_max_left _ _, Nat.le_max_right _ _⟩
      hu.alpha
    rw [toNat_component_layered hu hl hc]
    exact rounded_between hpos hlow hhigh
  · rw [halpha]
    exact Nat.le_min.mpr ⟨Nat.le_add_right _ _, hu.alpha⟩
  · rw [halpha]
    exact Nat.le_min.mpr ⟨le_joined hpos hu.alpha hl.alpha, hl.alpha⟩
  · rw [halpha]
    exact Nat.min_le_right _ _

theorem fits_layered (hu : upper.Fits depth) (hl : lower.Fits depth) :
    (layered depth.maxValue upper lower).Fits depth := by
  have hover := laidOver_layered hu hl
  intro c
  by_cases hc : c = .alpha
  · rw [hc]
    exact hover.inRange
  · exact Nat.le_trans (hover.color c hc).2 (Nat.max_le.mpr ⟨hu c, hl c⟩)

end Pixel

namespace Image

variable {image target source : Image} {background : Color}

/-- What a blend of images that go together shows. -/
theorem blend_spec (htarget : target.WellFormed) (ht : target.isNull = false)
    (hs : source.isNull = false) (hdepth : target.depth = source.depth) (rect : Rect)
    (corner : Point) :
    ∃ new, target.blend source rect corner = .ok new ∧ Keeps [] target new
      ∧ ∀ x < target.width.toNat, ∀ y < target.height.toNat,
        new.pixel x y
          = if Reaches source rect corner x y then
              Pixel.layered target.depth.maxValue
                (source.pixel (under rect corner x y).1.toNat (under rect corner x y).2.toNat)
                (target.pixel x y)
            else target.pixel x y := by
  have hfault := placeFault?_eq_none ht hs hdepth
  refine place_spec htarget _ rect corner hfault fun i j x y => ?_
  exact Pixel.fits_layered (hdepth ▸ fits_pixel source i j) (fits_pixel target x y)

end Image

/-! ## Removing alpha -/

/-- What an image is laid over when its alpha is removed onto a color: the color at the depth of the
image, with full alpha. -/
def Color.backdrop (background : Color) (depth : Depth) : Color :=
  ⟨{ (background.toDepth depth).pixel with alpha := UInt16.ofNat depth.maxValue }, depth⟩

theorem Color.alpha_backdrop (background : Color) (depth : Depth) :
    (background.backdrop depth).pixel.alpha.toNat = depth.maxValue := by
  cases depth <;> rfl

theorem Color.fits_backdrop {background : Color} (h : background.pixel.Fits background.depth)
    (depth : Depth) : (background.backdrop depth).pixel.Fits depth := by
  intro c
  cases c with
  | alpha => exact Nat.le_of_eq (background.alpha_backdrop depth)
  | red => exact fits_toDepth h depth .red
  | green => exact fits_toDepth h depth .green
  | blue => exact fits_toDepth h depth .blue

namespace Image

variable {image : Image} {background : Color}

theorem removeAlpha_of_hasAlpha (hnull : image.isNull = false) (halpha : image.hasAlpha)
    (background : Color) :
    image.removeAlpha background
      = { image.mapPixels fun x y => Pixel.layered image.depth.maxValue (image.pixel x y)
            (background.backdrop image.depth).pixel with hasAlpha := false } := by
  rw [removeAlpha, hnull, halpha, if_neg (by decide)]
  rfl

theorem removeAlpha_of_not_hasAlpha (halpha : image.hasAlpha = false) (background : Color) :
    image.removeAlpha background = image := by
  rw [removeAlpha, halpha, if_pos (Or.inr Bool.false_ne_true)]

/-- The rectangle of a whole image, placed at the origin, reaches every position. -/
theorem reaches_whole (hwidth : image.width.toNat < 0x80000000)
    (hheight : image.height.toNat < 0x80000000) {x y : Nat} (hx : x < image.width.toNat)
    (hy : y < image.height.toNat) :
    Reaches image (Rect.ofDimensions image.dimensions) ⟨0, 0⟩ x y := by
  have hcolumns := toInt_toInt32 image.width
  have hrows := toInt_toInt32 image.height
  rw [if_pos (by omega)] at hcolumns
  rw [if_pos (by omega)] at hrows
  rw [Reaches, Rect.Covers, Dimensions.Holds]
  dsimp only [under, Rect.ofDimensions, dimensions]
  rw [hcolumns, hrows, Int32.toInt_zero]
  omega

/-- The frame without its alpha shows the pixels laid over the color, none of them cut off when it
is stored. -/
theorem WellFormed.removeAlpha_spec (h : image.WellFormed) (hnull : image.isNull = false)
    (halpha : image.hasAlpha) (hfits : background.pixel.Fits background.depth) :
    (image.removeAlpha background).dimensions = image.dimensions
      ∧ (image.removeAlpha background).depth = image.depth
      ∧ (image.removeAlpha background).hasAlpha = false
      ∧ ∀ x < image.width.toNat, ∀ y < image.height.toNat,
        (image.removeAlpha background).pixel x y
          = Pixel.layered image.depth.maxValue (image.pixel x y)
            (background.backdrop image.depth).pixel := by
  have hkeeps := h.frame_mapPixels fun x y =>
    Pixel.layered image.depth.maxValue (image.pixel x y) (background.backdrop image.depth).pixel
  rw [removeAlpha_of_hasAlpha hnull halpha]
  refine ⟨hkeeps.dimensions, hkeeps.depth, rfl, fun x hx y hy => ?_⟩
  exact h.pixel_mapPixels hx hy
    (Pixel.fits_layered (fits_pixel image x y) (background.fits_backdrop hfits image.depth))

theorem wellFormed_filled (d : Dimensions) (hasAlpha : Bool) (color : Color) :
    (filled d hasAlpha color).WellFormed :=
  wellFormed_ofPixels _ _ _ _

/-- An image of one color, as large as another one. -/
theorem WellFormed.filled_spec (h : image.WellFormed) (hnull : image.isNull = false)
    {color : Color} (hdepth : color.depth = image.depth) (hfits : color.pixel.Fits color.depth)
    (hasAlpha : Bool) :
    (filled image.dimensions hasAlpha color).dimensions = image.dimensions
      ∧ (filled image.dimensions hasAlpha color).depth = image.depth
      ∧ (filled image.dimensions hasAlpha color).isNull = false
      ∧ ∀ x < image.width.toNat, ∀ y < image.height.toNat,
        (filled image.dimensions hasAlpha color).pixel x y = color.pixel := by
  have hlen : (byteLength? image.dimensions color.depth).isSome := hdepth ▸ h.isSome_byteLength
  have hpos := h.isNull_eq_false_iff.mp hnull
  have hnew := Image.ofPixels_eq hlen hpos hasAlpha fun _ _ => color.pixel
  have hframe : (filled image.dimensions hasAlpha color).dimensions = image.dimensions := by
    rw [filled, hnew]
    rfl
  refine ⟨hframe, ?_, ?_, fun x hx y hy => pixel_ofPixels hlen hx hy hfits⟩
  · rw [filled, hnew, hdepth]
  · rw [(wellFormed_filled _ hasAlpha color).isNull_eq_false_iff, pixelCount, hframe]
    exact hpos

/-- Removing alpha gives the bytes of a whole image laid over the backdrop. -/
theorem WellFormed.exists_blend_backdrop (h : image.WellFormed) (hnull : image.isNull = false)
    (halpha : image.hasAlpha) (hwidth : image.width.toNat < 0x80000000)
    (hheight : image.height.toNat < 0x80000000) (hfits : background.pixel.Fits background.depth)
    (hasAlpha : Bool) :
    ∃ blended, (filled image.dimensions hasAlpha (background.backdrop image.depth)).blend image
        (Rect.ofDimensions image.dimensions) ⟨0, 0⟩ = .ok blended
      ∧ blended.bytes = (image.removeAlpha background).bytes := by
  obtain ⟨hframe, hdepth, -, hremoved⟩ := h.removeAlpha_spec hnull halpha hfits
  have hbackdrop := background.fits_backdrop hfits image.depth
  obtain ⟨hframe', hdepth', hnull', hcolor⟩ := h.filled_spec hnull rfl hbackdrop hasAlpha
  have hwell := wellFormed_filled image.dimensions hasAlpha (background.backdrop image.depth)
  obtain ⟨blended, hblended, hkeeps, hpixel⟩ :=
    blend_spec hwell hnull' hnull hdepth' (Rect.ofDimensions image.dimensions) ⟨0, 0⟩
  obtain ⟨hw, hh⟩ := Dimensions.mk.inj hframe'
  refine ⟨blended, hblended, (hwell.blend hblended).bytes_eq_of_pixels (h.removeAlpha background)
    ?_ ?_ fun x hx y hy => ?_⟩
  · rw [hkeeps.dimensions, hframe', hframe]
  · rw [hkeeps.depth, hdepth', hdepth]
  · rw [hkeeps.width, hw] at hx
    rw [hkeeps.height, hh] at hy
    rw [hpixel x (hw ▸ hx) y (hh ▸ hy), if_pos (reaches_whole hwidth hheight hx hy), hdepth',
      hcolor x hx y hy, hremoved x hx y hy]
    simp [under, Rect.ofDimensions]

/-- To remove alpha onto a color, pixel by pixel in place, is to lay the whole image over an image
of that color, at the same depth and with full alpha: both give the same bytes. Afterwards there is
no alpha, every pixel is the exact one with all channels in range and full alpha, and removing alpha
once more, onto any color, writes nothing. -/
theorem removeAlpha_composites {image : Image} (h : image.WellFormed) (hnull : image.isNull = false)
    (halpha : image.hasAlpha) (hwidth : image.width.toNat < 0x80000000)
    (hheight : image.height.toNat < 0x80000000) {background : Color}
    (hfits : background.pixel.Fits background.depth) :
    (∀ hasAlpha,
        let backdrop := filled image.dimensions hasAlpha (background.backdrop image.depth)
        let whole := Rect.ofDimensions image.dimensions
        (∃ blended, backdrop.blend image whole ⟨0, 0⟩ = .ok blended
            ∧ blended.bytes = (image.removeAlpha background).bytes)
          ∧ Checked.blend backdrop image whole ⟨0, 0⟩ = some (backdrop.blend image whole ⟨0, 0⟩))
      ∧ Checked.removeAlpha image background = some (image.removeAlpha background)
      ∧ SameFrame (image.removeAlpha background) { image with hasAlpha := false }
      ∧ (∀ x < image.width.toNat, ∀ y < image.height.toNat,
        (image.removeAlpha background).pixel x y
            = Pixel.layered image.depth.maxValue (image.pixel x y)
              (background.backdrop image.depth).pixel
          ∧ (Pixel.layered image.depth.maxValue (image.pixel x y)
              (background.backdrop image.depth).pixel).Fits image.depth
          ∧ ((image.removeAlpha background).pixel x y).alpha.toNat = image.depth.maxValue)
      ∧ ∀ color, (image.removeAlpha background).removeAlpha color = image.removeAlpha background
        ∧ (Edit.removeAlpha color).change (image.removeAlpha background) = (.keep, .done) := by
  obtain ⟨hframe, hdepth, hdropped, hpixel⟩ := h.removeAlpha_spec hnull halpha hfits
  have hlower := background.fits_backdrop hfits image.depth
  refine ⟨fun hasAlpha => ⟨?_, ?_⟩, Checked.removeAlpha_eq h background, ⟨hframe, hdepth, hdropped⟩,
    fun x hx y hy => ⟨hpixel x hx y hy, ?_, ?_⟩, fun color => ⟨?_, ?_⟩⟩
  · exact h.exists_blend_backdrop hnull halpha hwidth hheight hfits hasAlpha
  · exact Checked.blend_eq (wellFormed_filled _ hasAlpha _) h _ _
  · exact Pixel.fits_layered (fits_pixel image x y) hlower
  · have hover := Pixel.laidOver_layered (fits_pixel image x y) hlower
    rw [hpixel x hx y hy]
    exact Nat.le_antisymm hover.inRange
      (background.alpha_backdrop image.depth ▸ hover.lowerAlpha)
  · exact removeAlpha_of_not_hasAlpha hdropped color
  · rw [Edit.change, hdropped, if_pos (Or.inr Bool.false_ne_true)]

def orange : Color :=
  ⟨⟨0, 30000, 65535, 7⟩, .sixteen⟩

/-- Two pixels with little alpha, laid over a color that is given at another depth. -/
theorem removeAlpha_composites_pair :
    pair.WellFormed ∧ pair.isNull = false ∧ pair.hasAlpha ∧ pair.width.toNat < 0x80000000
      ∧ pair.height.toNat < 0x80000000
      ∧ orange.pixel.Fits orange.depth
      ∧ ((pair.removeAlpha orange).pixel 1 0).alpha.toNat = 255
      ∧ ∃ blended,
        (filled pair.dimensions false (orange.backdrop .eight)).blend pair
            (Rect.ofDimensions pair.dimensions) ⟨0, 0⟩ = .ok blended
          ∧ blended.bytes = (pair.removeAlpha orange).bytes := by
  have hwell : pair.WellFormed := Or.inr (by decide)
  have hfits : orange.pixel.Fits orange.depth := fun c => by cases c <;> decide
  obtain ⟨hsame, -, -, hpixels, -⟩ :=
    removeAlpha_composites hwell rfl rfl (by decide) (by decide) hfits
  obtain ⟨-, -, halpha⟩ := hpixels 1 (by decide) 0 (by decide)
  exact ⟨hwell, rfl, rfl, by decide, by decide, hfits, halpha, (hsame false).1⟩

end Image

end Darkroom
