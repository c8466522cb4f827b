import Darkroom.Proofs.Image.Pixels
import Darkroom.Raster.Library

/-!
# Rasters and the samples that they hold

A colored raster is known by its size, its layout and the pixels that it shows (`Colored.samples_eq`), and
one whose samples were made of pixels shows them, with full alpha if it has none (`pixelAt_ofPixels`). So
an image made a raster and an image again is the same but for the alpha that it does not use
(`toImage_of_ofImage?`), and a colored raster made an image and a raster again is the same
(`ofImage?_toImage`).
-/

namespace Darkroom

namespace Samples

/-! ## Samples by their positions -/

variable {depth : Depth} {n i : ℕ} {f g : ℕ → UInt16}

theorem depth_ofFn : (ofFn depth n f).depth = depth := by
  cases depth <;> rfl

theorem count_ofFn : (ofFn depth n f).count = n := by
  cases depth <;> exact Array.size_ofFn

theorem channel_ofFn (hi : i < n) (hfit : (f i).toNat ≤ depth.maxValue) :
    (ofFn depth n f).channel i = f i := by
  cases depth with
  | eight =>
      have hget : (ofFn .eight n f).channel i = (f i).toUInt8.toUInt16 := by
        simp [ofFn, channel, hi]
      rw [hget, Pixel.toUInt16_toUInt8 hfit]
  | sixteen => simp [ofFn, channel, hi]

theorem ofFn_congr (h : ∀ i < n, f i = g i) : ofFn depth n f = ofFn depth n g := by
  have hsame : ∀ i : Fin n, f i.val = g i.val := fun i => h i.val i.isLt
  cases depth <;> simp [ofFn, hsame]

/-- Whole samples are those of their positions. -/
theorem eq_ofFn {s : Samples} (hwhole : ∀ values, s ≠ .fraction values) :
    s = ofFn s.depth s.count s.channel := by
  cases s with
  | eight values =>
      simp only [depth, count, channel, ofFn, eight.injEq]
      refine Array.ext (by simp) fun i hi _ => ?_
      simp
  | sixteen values =>
      simp only [depth, count, channel, ofFn, sixteen.injEq]
      refine Array.ext (by simp) fun i hi _ => ?_
      simp
  | fraction values => exact absurd rfl (hwhole values)

/-- A sample is a value of the depth of the image. -/
theorem channel_le (s : Samples) (i : ℕ) : (s.channel i).toNat ≤ s.depth.maxValue := by
  cases s with
  | eight values =>
      rw [channel, UInt8.toNat_toUInt16]
      exact Nat.le_of_lt_succ (UInt8.toNat_lt _)
  | sixteen values => exact Nat.le_of_lt_succ (UInt16.toNat_lt _)
  | fraction values => exact Nat.le_of_lt_succ (UInt16.toNat_lt _)

end Samples

namespace Pixel

def solid (depth : Depth) (p : Pixel) : Pixel :=
  { p with alpha := UInt16.ofNat depth.maxValue }

variable {depth : Depth} {p : Pixel}

theorem toNat_full (depth : Depth) : (UInt16.ofNat depth.maxValue).toNat = depth.maxValue := by
  cases depth <;> rfl

theorem Fits.solid (h : p.Fits depth) : (p.solid depth).Fits depth := by
  intro c
  cases c with
  | red => exact h .red
  | green => exact h .green
  | blue => exact h .blue
  | alpha => exact Nat.le_of_eq (toNat_full depth)

theorem solid_eq_self_iff : p.solid depth = p ↔ p.alpha = UInt16.ofNat depth.maxValue := by
  obtain ⟨blue, green, red, alpha⟩ := p
  simp [solid, eq_comm]

theorem Fits.sampleOf (h : p.Fits depth) (j : ℕ) : (Raster.sampleOf p j).toNat ≤ depth.maxValue := by
  match j with
  | 0 => exact h .red
  | 1 => exact h .green
  | 2 => exact h .blue
  | j + 3 => exact h .alpha

end Pixel

namespace Image

/-- An image with full alpha everywhere. It is what comes back of an image that was written without
alpha. -/
def solid (image : Image) : Image :=
  image.mapPixels fun x y => (image.pixel x y).solid image.depth

variable {image : Image}

theorem WellFormed.pixel_solid (h : image.WellFormed) {x y : ℕ} (hx : x < image.width.toNat)
    (hy : y < image.height.toNat) : image.solid.pixel x y = (image.pixel x y).solid image.depth :=
  h.pixel_mapPixels hx hy (image.fits_pixel x y).solid

/-- Full alpha changes nothing exactly where alpha is full. -/
theorem WellFormed.solid_eq_self_iff (h : image.WellFormed) : image.solid = image
    ↔ ∀ x < image.width.toNat, ∀ y < image.height.toNat,
      (image.pixel x y).alpha = UInt16.ofNat image.depth.maxValue := by
  constructor
  · intro hsame x hx y hy
    rw [← Pixel.solid_eq_self_iff, ← h.pixel_solid hx hy, hsame]
  · intro hfull
    refine (h.mapPixels _).ext_pixels h (h.sameFrame_mapPixels _) ?_
    have hframe := h.sameFrame_mapPixels fun x y => (image.pixel x y).solid image.depth
    intro x hx y hy
    have hx : x < image.width.toNat := hframe.width ▸ hx
    have hy : y < image.height.toNat := hframe.height ▸ hy
    exact (h.pixel_solid hx hy).trans (Pixel.solid_eq_self_iff.mpr (hfull x hx y hy))

end Image

namespace Raster

variable {r : Raster}

/-! ## The pixels of a raster -/

/-- The samples of a pixel stand next to each other. -/
theorem sampleOf_pixelAt (h : r.layout = .rgb ∨ r.layout = .rgba) (k : ℕ) {j : ℕ}
    (hj : j < r.layout.size) :
    sampleOf (r.pixelAt k) j = r.samples.channel (k * r.layout.size + j) := by
  obtain ⟨width, height, layout, samples⟩ := r
  rcases h with rfl | rfl <;> simp only [Layout.size] at hj
  · obtain rfl | rfl | rfl : j = 0 ∨ j = 1 ∨ j = 2 := by omega
    all_goals rfl
  · obtain rfl | rfl | rfl | rfl : j = 0 ∨ j = 1 ∨ j = 2 ∨ j = 3 := by omega
    all_goals rfl

theorem Colored.fits (h : r.Colored) (k : ℕ) : (r.pixelAt k).Fits r.samples.depth := by
  have hle := r.samples.channel_le
  have hfull := Pixel.toNat_full r.samples.depth
  obtain ⟨width, height, layout, samples⟩ := r
  intro c
  rcases h.layout with rfl | rfl <;> cases c <;> first | exact hle _ | exact Nat.le_of_eq hfull

theorem Colored.size_pos (h : r.Colored) : 0 < r.layout.size := by
  rcases h.layout with hlayout | hlayout <;> rw [hlayout] <;> decide

/-- A colored raster holds the samples of the pixels that it shows. -/
theorem Colored.samples_eq (h : r.Colored) : r.samples = r.samplesOf r.layout.size := by
  have hsample : ∀ i < r.samples.count, r.samples.channel i
      = sampleOf (r.pixelAt (i / r.layout.size)) (i % r.layout.size) := by
    intro i _
    rw [sampleOf_pixelAt h.layout _ (Nat.mod_lt _ h.size_pos), Nat.mul_comm, Nat.div_add_mod]
  have hwhole := Samples.eq_ofFn h.integral
  rw [Samples.ofFn_congr hsample, h.count] at hwhole
  exact hwhole

/-- A raster that is made of the samples of pixels shows the pixels, as far as it has room for them. -/
theorem pixelAt_of_samples {depth : Depth} {p : ℕ → Pixel} {n k : ℕ}
    (hlayout : r.layout = .rgb ∨ r.layout = .rgba)
    (hsamples : r.samples = Samples.ofFn depth (n * r.layout.size) fun i =>
      sampleOf (p (i / r.layout.size)) (i % r.layout.size))
    (hk : k < n) (hfit : (p k).Fits depth) :
    r.pixelAt k = if r.layout.hasAlpha then p k else (p k).solid depth := by
  have hdepth : r.samples.depth = depth := by rw [hsamples, Samples.depth_ofFn]
  have hsample : ∀ j < r.layout.size, r.samples.channel (k * r.layout.size + j) = sampleOf (p k) j := by
    intro j hj
    have hplace : (k * r.layout.size + j) / r.layout.size = k := Image.index_div hj
    have hrest : (k * r.layout.size + j) % r.layout.size = j := Image.index_mod hj
    have hlt : k * r.layout.size + j < n * r.layout.size := by
      rw [Nat.mul_comm n]
      exact Image.index_lt hj hk
    have hvalue : (sampleOf (p ((k * r.layout.size + j) / r.layout.size))
        ((k * r.layout.size + j) % r.layout.size)).toNat ≤ depth.maxValue := by
      rw [hplace, hrest]
      exact hfit.sampleOf j
    rw [hsamples, Samples.channel_ofFn hlt hvalue, hplace, hrest]
  obtain ⟨width, height, layout, samples⟩ := r
  subst hdepth
  rcases hlayout with rfl | rfl <;> refine Pixel.ext_component fun c => ?_
  · have hsample : ∀ j < 3, samples.channel (k * 3 + j) = sampleOf (p k) j := hsample
    cases c with
    | red => exact hsample 0 (by decide)
    | green => exact hsample 1 (by decide)
    | blue => exact hsample 2 (by decide)
    | alpha => rfl
  · have hsample : ∀ j < 4, samples.channel (k * 4 + j) = sampleOf (p k) j := hsample
    cases c with
    | red => exact hsample 0 (by decide)
    | green => exact hsample 1 (by decide)
    | blue => exact hsample 2 (by decide)
    | alpha => exact hsample 3 (by decide)

theorem Colored.pixel_toImage (h : r.Colored)
    (hroom : (Image.byteLength? ⟨r.width, r.height⟩ r.samples.depth).isSome) {x y : ℕ}
    (hx : x < r.width.toNat) (hy : y < r.height.toNat) :
    r.toImage.pixel x y = r.pixelAt (y * r.width.toNat + x) :=
  Image.pixel_ofPixels hroom hx hy (h.fits _)

/-! ## An image, a raster and an image again -/

def layoutOf (image : Image) : Layout :=
  if image.hasAlpha then .rgba else .rgb

theorem hasAlpha_layoutOf (image : Image) : (layoutOf image).hasAlpha = image.hasAlpha := by
  rw [layoutOf]
  cases image.hasAlpha <;> rfl

/-- An image as the raster of its pixels. -/
def ofPixels (image : Image) : Raster :=
  { width := image.width
    height := image.height
    layout := layoutOf image
    samples := Samples.ofFn image.depth
      (image.width.toNat * image.height.toNat * (layoutOf image).size) fun i =>
        sampleOf (image.pixel (i / (layoutOf image).size % image.width.toNat)
          (i / (layoutOf image).size / image.width.toNat)) (i % (layoutOf image).size) }

section

variable {image : Image}

theorem ofImage?_eq (hnull : image.isNull = false) : ofImage? image = some (ofPixels image) := by
  rw [ofImage?, hnull]
  rfl

theorem colored_ofPixels (image : Image) : (ofPixels image).Colored := by
  refine ⟨?_, fun values => ?_, ?_⟩
  · show layoutOf image = _ ∨ layoutOf image = _
    rw [layoutOf]
    cases image.hasAlpha
    · exact .inl rfl
    · exact .inr rfl
  · simp only [ofPixels]
    cases image.depth <;> exact Samples.noConfusion
  · simp only [ofPixels, Samples.count_ofFn]

/-- The raster of an image shows its pixels, with full alpha if the image has none. -/
theorem pixelAt_ofPixels {x y : ℕ} (hx : x < image.width.toNat) (hy : y < image.height.toNat) :
    (ofPixels image).pixelAt (y * image.width.toNat + x)
      = if image.hasAlpha then image.pixel x y else (image.pixel x y).solid image.depth := by
  have hpixel := pixelAt_of_samples
    (p := fun k => image.pixel (k % image.width.toNat) (k / image.width.toNat))
    (colored_ofPixels image).layout rfl (Image.index_lt hx hy) (image.fits_pixel _ _)
  rw [Image.index_mod hx, Image.index_div hx] at hpixel
  rw [hpixel, ← hasAlpha_layoutOf]
  rfl

/-- An image that was made a raster and an image again is what it was, with full alpha everywhere if
it has none. -/
theorem toImage_ofPixels (h : image.WellFormed) (hnull : image.isNull = false) :
    (ofPixels image).toImage = if image.hasAlpha then image else image.solid := by
  have hdepth : (ofPixels image).samples.depth = image.depth := by
    simp only [ofPixels, Samples.depth_ofFn]
  have hroom : (Image.byteLength? ⟨(ofPixels image).width, (ofPixels image).height⟩
      (ofPixels image).samples.depth).isSome := by
    rw [hdepth]
    exact h.isSome_byteLength
  have hframe : (ofPixels image).toImage.SameFrame image := by
    rw [toImage, Image.ofPixels_eq hroom (h.isNull_eq_false_iff.mp hnull), hdepth]
    exact ⟨rfl, rfl, hasAlpha_layoutOf image⟩
  have hwidth := hframe.width
  have hheight := hframe.height
  have hpixel : ∀ x < (ofPixels image).toImage.width.toNat,
      ∀ y < (ofPixels image).toImage.height.toNat, (ofPixels image).toImage.pixel x y
        = if image.hasAlpha then image.pixel x y else (image.pixel x y).solid image.depth := by
    intro x hx y hy
    rw [hwidth] at hx
    rw [hheight] at hy
    rw [(colored_ofPixels image).pixel_toImage hroom hx hy]
    exact pixelAt_ofPixels hx hy
  have hwf : (ofPixels image).toImage.WellFormed := Image.wellFormed_ofPixels _ _ _ _
  cases halpha : image.hasAlpha with
  | true =>
      refine hwf.ext_pixels h hframe fun x hx y hy => ?_
      rw [hpixel x hx y hy, halpha]
      rfl
  | false =>
      have hsolid := h.sameFrame_mapPixels fun x y => (image.pixel x y).solid image.depth
      refine hwf.ext_pixels (h.mapPixels _) (hframe.trans hsolid.symm) fun x hx y hy => ?_
      rw [hpixel x hx y hy, halpha]
      exact (h.pixel_solid (hwidth ▸ hx) (hheight ▸ hy)).symm

end

/-! ## A raster, an image and a raster again -/

/-- A colored raster that was made an image and a raster again is what it was, if it has pixels and its
image can be held. -/
theorem Colored.ofImage?_toImage (h : r.Colored) (hwidth : 0 < r.width) (hheight : 0 < r.height)
    (hroom : (Image.byteLength? ⟨r.width, r.height⟩ r.samples.depth).isSome) :
    ofImage? r.toImage = some r := by
  have hpos : 0 < (⟨r.width, r.height⟩ : Dimensions).pixels :=
    Nat.mul_pos (UInt32.lt_iff_toNat_lt.mp hwidth) (UInt32.lt_iff_toNat_lt.mp hheight)
  have hwf : r.toImage.WellFormed := Image.wellFormed_ofPixels _ _ _ _
  have himage : r.toImage = _ := Image.ofPixels_eq hroom hpos _ _
  have hwidth' : r.toImage.width = r.width := by rw [himage]
  have hheight' : r.toImage.height = r.height := by rw [himage]
  have hdepth : r.toImage.depth = r.samples.depth := by rw [himage]
  have halpha : r.toImage.hasAlpha = r.layout.hasAlpha := by rw [himage]
  have hnull : r.toImage.isNull = false := by
    rw [hwf.isNull_eq_false_iff, himage]
    exact hpos
  have hlayout : layoutOf r.toImage = r.layout := by
    rw [layoutOf, halpha]
    rcases h.layout with hlayout | hlayout <;> rw [hlayout] <;> rfl
  have hsamples : (ofPixels r.toImage).samples = r.samples := by
    rw [h.samples_eq]
    simp only [ofPixels, samplesOf, hlayout, hwidth', hheight', hdepth]
    refine Samples.ofFn_congr fun i hi => ?_
    have hk : i / r.layout.size < r.width.toNat * r.height.toNat :=
      (Nat.div_lt_iff_lt_mul h.size_pos).mpr hi
    obtain ⟨hx, hy⟩ := Image.place_lt hk
    rw [h.pixel_toImage hroom hx hy, Image.index_of_place]
  have hparts : ofPixels r.toImage = ⟨r.toImage.width, r.toImage.height, layoutOf r.toImage,
      (ofPixels r.toImage).samples⟩ := rfl
  rw [ofImage?_eq hnull, hparts, hsamples, hlayout, hwidth', hheight']

end Raster

end Darkroom
