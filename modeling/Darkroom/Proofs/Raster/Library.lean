import Darkroom.Proofs.Raster.Samples
import Mathlib.Data.List.OfFn

/-!
# Conversions by way of a library

What a lawful library makes of an image or a raster is what the image and the raster show
(`Library.toImage_eq`, `Library.ofImage?_eq`): the orders of samples and bytes only differ by the
exchange of the first and the third of every four and by the two bytes of a 16-bit value, and each
pixel is four values in a row. So the two conversions are inverse to each other (`conversions_inverse`).
-/

namespace Darkroom.Raster

/-! ## Four values in a row -/

section

variable {α ι : Type} {items : List ι}

theorem map_range (n : ℕ) (f : ℕ → α) : (List.range n).map f = List.ofFn fun i : Fin n => f i :=
  List.ext_getElem (by simp) (by simp)

/-- Values by their positions, as rows of the same length one after the other. -/
theorem toList_rows (n m : ℕ) (g : ℕ → ℕ → α) :
    (Array.ofFn fun i : Fin (n * m) => g (i.val / m) (i.val % m)).toList
      = (List.range n).flatMap fun k => (List.range m).map (g k) := by
  simp only [Array.toList_ofFn, List.ofFn_mul, List.flatMap_def, map_range, Image.index_div,
    Image.index_mod, Fin.is_lt]

theorem exchanged_rows (a b c d : ι → α) :
    exchanged (items.flatMap fun k => [a k, b k, c k, d k])
      = items.flatMap fun k => [c k, b k, a k, d k] := by
  induction items with
  | nil => rfl
  | cons k items ih =>
      simp only [List.flatMap_cons, List.cons_append, List.nil_append, exchanged, ih]

/-- The bytes of values give them back. -/
theorem words_rows (values : List UInt16) : words (values.flatMap (Bytes.ofValue .sixteen)) = values := by
  induction values with
  | nil => rfl
  | cons v values ih =>
      simp only [List.flatMap_cons, Bytes.ofValue, List.cons_append, List.nil_append, words,
        Pixel.word_bytes, ih]

end

/-! ## The pixels of images -/

namespace Library

/-- The bytes of an image, in rows of one pixel. -/
theorem toList_pixelBytes (w h : ℕ) (depth : Depth) (f : ℕ → ℕ → Pixel) :
    (Image.pixelBytes w h depth f).toList
      = (List.range (w * h)).flatMap fun k => (f (k % w) (k / w)).bytes depth :=
  toList_rows (w * h) depth.pixelBytes fun k j => (f (k % w) (k / w)).byte depth j

def stored (p : Pixel) : List UInt16 :=
  [p.blue, p.green, p.red, p.alpha]

theorem bytes_eight (p : Pixel) : p.bytes .eight = (stored p).map (·.toUInt8) :=
  rfl

theorem bytes_sixteen (p : Pixel) : p.bytes .sixteen = (stored p).flatMap (Bytes.ofValue .sixteen) :=
  rfl

/-- The samples of pixels, red first, are their values, blue first, but for the exchange. -/
theorem exchanged_samples {α : Type} (n : ℕ) (p : ℕ → Pixel) (t : UInt16 → α) :
    exchanged (Array.ofFn fun i : Fin (n * 4) => t (sampleOf (p (i.val / 4)) (i.val % 4))).toList
      = (List.range n).flatMap fun k => (stored (p k)).map t := by
  rw [toList_rows n 4 fun k j => t (sampleOf (p k) j)]
  exact exchanged_rows (fun k => t (p k).red) (fun k => t (p k).green) (fun k => t (p k).blue)
    fun k => t (p k).alpha

theorem exchanged_stored {α : Type} (n : ℕ) (p : ℕ → Pixel) (t : UInt16 → α) :
    exchanged ((List.range n).flatMap fun k => (stored (p k)).map t)
      = (Array.ofFn fun i : Fin (n * 4) => t (sampleOf (p (i.val / 4)) (i.val % 4))).toList := by
  rw [toList_rows n 4 fun k j => t (sampleOf (p k) j)]
  exact exchanged_rows (fun k => t (p k).blue) (fun k => t (p k).green) (fun k => t (p k).red)
    fun k => t (p k).alpha

/-- An image of the bytes of pixels. -/
theorem ofBytes_pixelBytes (d : Dimensions) (depth : Depth) (hasAlpha : Bool)
    (f : ℕ → ℕ → Pixel) :
    Image.ofBytes d depth hasAlpha (Image.pixelBytes d.width.toNat d.height.toNat depth f)
      = Image.ofPixels d depth hasAlpha f := by
  rw [Image.ofBytes, Image.ofPixels, Image.size_pixelBytes]
  cases hlen : Image.byteLength? d depth with
  | none => rfl
  | some n =>
      obtain ⟨rfl, -⟩ := Image.byteLength?_eq_some.mp hlen
      by_cases hzero : d.pixels * depth.pixelBytes = 0
      · exact (if_neg fun h => Nat.ne_of_gt h.2 hzero).trans (if_pos hzero).symm
      · exact (if_pos ⟨rfl, Nat.pos_of_ne_zero hzero⟩).trans (if_neg hzero).symm

/-- The samples of a well-formed image are those of its pixels, red first. -/
theorem samplesFrom_eq {image : Image} (h : image.WellFormed) :
    samplesFrom image
      = Samples.ofFn image.depth (image.width.toNat * image.height.toNat * 4) fun i =>
          sampleOf (image.pixel (i / 4 % image.width.toNat) (i / 4 / image.width.toNat)) (i % 4) := by
  have hbytes := congrArg Array.toList h.pixelBytes_pixel
  rw [toList_pixelBytes] at hbytes
  have hexchanged := fun {α : Type} (t : UInt16 → α) =>
    exchanged_stored (image.width.toNat * image.height.toNat)
      (fun k => image.pixel (k % image.width.toNat) (k / image.width.toNat)) t
  rw [samplesFrom, ← hbytes]
  cases image.depth with
  | eight =>
      simp only [bytes_eight, hexchanged]
      rfl
  | sixteen =>
      simp only [bytes_sixteen, ← List.flatMap_assoc, words_rows]
      have hvalues := hexchanged id
      simp only [List.map_id, id_eq] at hvalues
      rw [hvalues]
      rfl

def withAlpha (image : Image) : Raster :=
  ⟨image.width, image.height, .rgba, samplesFrom image⟩

theorem colored_withAlpha {image : Image} (h : image.WellFormed) : (withAlpha image).Colored := by
  refine ⟨.inr rfl, fun values => ?_, ?_⟩
  · simp only [withAlpha, samplesFrom]
    cases image.depth <;> exact Samples.noConfusion
  · simp only [withAlpha, samplesFrom_eq h, Samples.count_ofFn]
    rfl

/-! ## What a lawful library makes -/

variable {library : Library} (hlibrary : library.Lawful)
include hlibrary

theorem toImage_eq {r : Raster} (h : r.Colored) : library.toImage r = r.toImage := by
  have hpixel : ∀ k, r.pixelAt (k / r.width.toNat * r.width.toNat + k % r.width.toNat) = r.pixelAt k :=
    fun k => by rw [Image.index_of_place]
  rw [Raster.toImage, ← ofBytes_pixelBytes, toImage]
  refine congrArg _ (Array.toList_inj.mp ?_)
  rw [toList_pixelBytes]
  simp only [hpixel]
  cases hdepth : r.samples.depth with
  | eight =>
      have hsamples := hlibrary.rgba8 r h hdepth
      rw [samplesOf, hdepth] at hsamples
      rw [Samples.eight.inj hsamples]
      exact exchanged_samples _ r.pixelAt (·.toUInt8)
  | sixteen =>
      have hsamples := hlibrary.rgba16 r h hdepth
      rw [samplesOf, hdepth] at hsamples
      rw [Samples.sixteen.inj hsamples]
      have hexchanged := exchanged_samples (r.width.toNat * r.height.toNat) r.pixelAt id
      simp only [List.map_id, id_eq] at hexchanged
      simp only [hexchanged, List.flatMap_assoc, bytes_sixteen]

theorem withoutAlpha_eq {image : Image} (h : image.WellFormed) :
    library.withoutAlpha image.depth (withAlpha image)
      = { width := image.width
          height := image.height
          layout := .rgb
          samples := Samples.ofFn image.depth (image.width.toNat * image.height.toNat * 3) fun i =>
            sampleOf (image.pixel (i / 3 % image.width.toNat) (i / 3 / image.width.toNat))
              (i % 3) } := by
  have hsamples : (withAlpha image).samples = _ := samplesFrom_eq h
  have hdepth : (withAlpha image).samples.depth = image.depth := by
    rw [hsamples, Samples.depth_ofFn]
  have hcolors : (withAlpha image).samplesOf 3 = Samples.ofFn image.depth
      (image.width.toNat * image.height.toNat * 3) fun i =>
        sampleOf (image.pixel (i / 3 % image.width.toNat) (i / 3 / image.width.toNat)) (i % 3) := by
    rw [samplesOf, hdepth]
    refine Samples.ofFn_congr fun i hi => ?_
    have hi : i < image.width.toNat * image.height.toNat * 3 := hi
    have hpixel : (withAlpha image).pixelAt (i / 3) = image.pixel _ _ :=
      pixelAt_of_samples
        (p := fun k => image.pixel (k % image.width.toNat) (k / image.width.toNat))
        (.inr rfl) hsamples (by omega) (image.fits_pixel _ _)
    rw [hpixel]
  rw [← hcolors]
  have hcolored := colored_withAlpha h
  cases himage : image.depth with
  | eight =>
      rw [← hlibrary.rgb8 _ hcolored (hdepth.trans himage)]
      rfl
  | sixteen =>
      rw [← hlibrary.rgb16 _ hcolored (hdepth.trans himage)]
      rfl

theorem ofImage?_eq {image : Image} (h : image.WellFormed) :
    library.ofImage? image = Raster.ofImage? image := by
  cases hnull : image.isNull with
  | true =>
      rw [ofImage?, Raster.ofImage?, hnull]
      rfl
  | false =>
      have hcount : (samplesFrom image).count = image.width.toNat * image.height.toNat * 4 := by
        rw [samplesFrom_eq h, Samples.count_ofFn]
      rw [Raster.ofImage?_eq hnull, ofImage?, hnull, hlibrary.ofSamples? _ _ _ hcount]
      show some _ = some _
      rw [ofPixels, layoutOf]
      cases image.hasAlpha with
      | true => rw [samplesFrom_eq h]; rfl
      | false => exact congrArg some (withoutAlpha_eq hlibrary h)

end Library

/-! ## There and back -/

/-- The conversions of images and rasters are inverse. An image that was made a raster and an image again
is what it was, with full alpha everywhere if it has none; so it is the same exactly if it has alpha or
its alpha is full. A colored raster that was made an image and a raster again is the same exactly if its
image can be held. -/
theorem conversions_inverse {library : Library} (hlibrary : library.Lawful) :
    (∀ image : Image, image.WellFormed → image.isNull = false →
      ∃ r, library.ofImage? image = some r ∧ r.Colored
        ∧ r.layout = (if image.hasAlpha then .rgba else .rgb) ∧ r.samples.depth = image.depth
        ∧ library.toImage r = (if image.hasAlpha then image else image.solid)
        ∧ (library.toImage r = image ↔ image.hasAlpha = true
          ∨ ∀ x < image.width.toNat, ∀ y < image.height.toNat,
            (image.pixel x y).alpha = UInt16.ofNat image.depth.maxValue))
      ∧ (∀ r : Raster, r.Colored → 0 < r.width → 0 < r.height →
        (library.ofImage? (library.toImage r) = some r
          ↔ (Image.byteLength? ⟨r.width, r.height⟩ r.samples.depth).isSome))
      ∧ (∀ r : Raster, r.Colored → library.toImage r = r.toImage)
      ∧ ∀ image : Image, image.WellFormed → library.ofImage? image = ofImage? image := by
  refine ⟨fun image h hnull => ?_, fun r h hwidth hheight => ?_,
    fun r h => Library.toImage_eq hlibrary h, fun image h => Library.ofImage?_eq hlibrary h⟩
  · have hcolored := colored_ofPixels image
    have hback : library.toImage (ofPixels image) = if image.hasAlpha then image else image.solid := by
      rw [Library.toImage_eq hlibrary hcolored, toImage_ofPixels h hnull]
    refine ⟨ofPixels image, ?_, hcolored, rfl, ?_, hback, ?_⟩
    · rw [Library.ofImage?_eq hlibrary h, ofImage?_eq hnull]
    · simp only [ofPixels, Samples.depth_ofFn]
    · rw [hback]
      cases image.hasAlpha with
      | true => simp
      | false => simpa using h.solid_eq_self_iff
  · have hwf : r.toImage.WellFormed := Image.wellFormed_ofPixels _ _ _ _
    rw [Library.toImage_eq hlibrary h, Library.ofImage?_eq hlibrary hwf]
    refine ⟨fun hback => ?_, h.ofImage?_toImage hwidth hheight⟩
    by_contra hroom
    rw [Option.not_isSome_iff_eq_none] at hroom
    have hnull : r.toImage = Image.null := by rw [toImage, Image.ofPixels, hroom]
    rw [hnull] at hback
    cases hback

/-- A library that does what is expected of one, and no more. It shows that the laws can be met, and
by it the conversions can be run on fixed images. -/
def Library.plain : Library where
  rgba8 r := Array.ofFn fun i : Fin (r.width.toNat * r.height.toNat * 4) =>
    (sampleOf (r.pixelAt (i.val / 4)) (i.val % 4)).toUInt8
  rgba16 r := Array.ofFn fun i : Fin (r.width.toNat * r.height.toNat * 4) =>
    sampleOf (r.pixelAt (i.val / 4)) (i.val % 4)
  rgb8 r := Array.ofFn fun i : Fin (r.width.toNat * r.height.toNat * 3) =>
    (sampleOf (r.pixelAt (i.val / 3)) (i.val % 3)).toUInt8
  rgb16 r := Array.ofFn fun i : Fin (r.width.toNat * r.height.toNat * 3) =>
    sampleOf (r.pixelAt (i.val / 3)) (i.val % 3)
  ofSamples? width height samples :=
    if width.toNat * height.toNat * 4 ≤ samples.count then some ⟨width, height, .rgba, samples⟩
    else none

theorem Library.lawful_plain : plain.Lawful where
  rgba8 r _ hdepth := by rw [samplesOf, hdepth]; rfl
  rgba16 r _ hdepth := by rw [samplesOf, hdepth]; rfl
  rgb8 r _ hdepth := by rw [samplesOf, hdepth]; rfl
  rgb16 r _ hdepth := by rw [samplesOf, hdepth]; rfl
  ofSamples? _ _ _ hcount := if_pos (Nat.le_of_eq hcount.symm)

/-- Two pixels of 16 bits, one of which uses alpha although the image has none. What is written
without alpha loses it, so the way back gives full alpha. -/
def halfClear : Image :=
  ⟨2, 1, .sixteen, false, #[1, 2, 3, 4, 5, 6, 7, 8, 9, 10, 11, 12, 13, 14, 255, 255]⟩

def twoColors : Raster :=
  ⟨1, 2, .rgb, .eight #[1, 2, 3, 4, 5, 6]⟩

theorem conversions_inverse_halfClear :
    Library.plain.Lawful ∧ halfClear.WellFormed ∧ halfClear.isNull = false ∧ twoColors.Colored
      ∧ (∃ r, Library.plain.ofImage? halfClear = some r
        ∧ Library.plain.toImage r = halfClear.solid ∧ Library.plain.toImage r ≠ halfClear)
      ∧ Library.plain.ofImage? (Library.plain.toImage twoColors) = some twoColors := by
  have hwf : halfClear.WellFormed := .inr ⟨by decide, by decide, by decide⟩
  have hcolored : twoColors.Colored := ⟨.inl rfl, fun _ => Samples.noConfusion, rfl⟩
  obtain ⟨himage, hraster, -⟩ := conversions_inverse Library.lawful_plain
  obtain ⟨r, hr, -, -, -, hback, hsame⟩ := himage halfClear hwf rfl
  refine ⟨Library.lawful_plain, hwf, rfl, hcolored, ⟨r, hr, hback, fun heq => ?_⟩,
    (hraster twoColors hcolored (by decide) (by decide)).mpr (by decide)⟩
  rcases hsame.mp heq with halpha | hfull
  · cases halpha
  · exact absurd (hfull 0 (by decide) 0 (by decide)) (by decide)

end Darkroom.Raster
