import Darkroom.Proofs.Filter.Units
import Darkroom.Proofs.Tone.Histogram

/-!
# What filters with tables give

A filter that measures an image, makes tables of the histogram and maps the source by them never
fails, and it gives the mapped source unless it is cancelled (`gives_tables`). The pixels of a mapped
image are the mapped pixels as long as the tables stay inside the depth (`Luts.pixel_mapped`).
-/

namespace Darkroom

/-! ## Work on pixels -/

namespace Image

variable {image : Image} {f : Pixel → Pixel}

/-- Changing every row pixel by pixel is changing every pixel. -/
theorem WellFormed.everyRow_pixelOp (h : image.WellFormed)
    (hf : ∀ p : Pixel, p.Fits image.depth → (f p).Fits image.depth) :
    image.everyRow (pixelOp image.depth f) = image.mapPixels fun x y => f (image.pixel x y) := by
  cases hnull : image.isNull with
  | true => rw [everyRow, Image.mapPixels, if_pos hnull, if_pos hnull]
  | false =>
      have hkeeps : Keeps [] image
          (image.processRows .start ⟨0, 100⟩ (pixelOp image.depth f)).1 :=
        keeps_processRows h hnull (fun c hc => absurd hc List.not_mem_nil) .start ⟨0, 100⟩
      rw [(steady_processRows image ⟨0, 100⟩ (pixelOp image.depth f)).image_start] at hkeeps
      have hwf := hkeeps.wellFormed h hnull
      refine hkeeps.ext_pixels (h.frame_mapPixels _) hwf (h.mapPixels _) fun x hx y hy => ?_
      have hrow : (image.everyRow (pixelOp image.depth f)).row y
          = pixelOp image.depth f y (image.row y) :=
        row_everyRow h hnull (fun _ _ => Array.size_ofFn) hy
      have hold := h.read_row hx hy
      -- The new row is an image of the old one byte by byte, of which the pixel is read back.
      rw [← hwf.read_row (hkeeps.width ▸ hx) (hkeeps.height ▸ hy), hrow, hkeeps.depth,
        h.pixel_mapPixels hx hy (hf _ (image.fits_pixel x y))]
      refine Pixel.read_of_bytes (hf _ (image.fits_pixel x y)) fun k hk => ?_
      have hsize : (image.row y).size = image.width.toNat * image.depth.pixelBytes := h.size_row hy
      rw [Array.getD_eq_getD_getElem?, getElem?_pixelOp hsize hx hk, Option.getD_some, hold]

end Image

/-! ## Mapped images -/

namespace Luts

/-- The image with every pixel mapped. What tables do to an image is proved to be this, however the
rows are split among tasks. -/
def mapped (luts : Luts) (image : Image) : Image :=
  image.mapPixels fun x y => luts.mapPixel (image.pixel x y)

/-- Tables that map values of a depth to values of it. Then nothing is cut off when a pixel is
stored. -/
def Within (luts : Luts) (depth : Depth) : Prop :=
  ∀ (c : Component) (v : UInt16), v.toNat ≤ depth.maxValue →
    (luts.map c v).toNat ≤ depth.maxValue

theorem component_map (luts : Luts) (p : Pixel) (c : Component) :
    (luts.mapPixel p).component c = luts.map c (p.component c) := by
  cases c <;> rfl

variable {luts : Luts} {image : Image}

theorem Within.fits_mapPixel (h : luts.Within image.depth) {p : Pixel} (hp : p.Fits image.depth) :
    (luts.mapPixel p).Fits image.depth := fun c => by
  rw [component_map]
  exact h c _ (hp c)

theorem frame_mapped (hwf : image.WellFormed) (luts : Luts) :
    (luts.mapped image).SameFrame image :=
  have hkeeps := hwf.frame_mapPixels fun x y => luts.mapPixel (image.pixel x y)
  ⟨hkeeps.dimensions, hkeeps.depth, hkeeps.hasAlpha⟩

theorem pixel_mapped (hwf : image.WellFormed) (h : luts.Within image.depth) {x y : ℕ}
    (hx : x < image.width.toNat) (hy : y < image.height.toNat) :
    (luts.mapped image).pixel x y = luts.mapPixel (image.pixel x y) :=
  hwf.pixel_mapPixels hx hy (h.fits_mapPixel (image.fits_pixel x y))

/-- Tables that leave all values of an image alone. -/
theorem mapped_eq_self (hwf : image.WellFormed)
    (h : ∀ x < image.width.toNat, ∀ y < image.height.toNat,
      luts.mapPixel (image.pixel x y) = image.pixel x y) : luts.mapped image = image := by
  refine (hwf.frame_mapPixels _).ext_pixels (.refl [] image) (hwf.mapPixels _) hwf
    fun x hx y hy => ?_
  have hfits : (luts.mapPixel (image.pixel x y)).Fits image.depth := by
    rw [h x hx y hy]
    exact image.fits_pixel x y
  rw [hwf.pixel_mapPixels hx hy hfits, h x hx y hy]

/-! ## Tables of functions -/

variable {depth : Depth} {f : ℕ → ℕ}

@[simp]
theorem size_tableOf (depth : Depth) (f : ℕ → ℕ) : (tableOf depth f).size = depth.segments :=
  Array.size_ofFn

theorem getElem?_tableOf {v : ℕ} (hv : v ≤ depth.maxValue) :
    (tableOf depth f)[v]? = some (UInt16.ofNat (f v)) := by
  have hlt : v < depth.segments := Nat.lt_succ_of_le hv
  rw [tableOf, Array.getElem?_ofFn, dif_pos hlt]

theorem tableOf_congr {g : ℕ → ℕ} (h : ∀ v ≤ depth.maxValue, f v = g v) :
    tableOf depth f = tableOf depth g :=
  congrArg Array.ofFn (funext fun v => congrArg UInt16.ofNat (h _ (Nat.le_of_lt_succ v.isLt)))

/-- An entry that is a value of the depth is not cut off. -/
theorem toNat_getD_tableOf {v : ℕ} (hv : v ≤ depth.maxValue) (hf : f v ≤ depth.maxValue)
    (other : UInt16) : ((tableOf depth f).getD v other).toNat = f v := by
  rw [Array.getD_eq_getD_getElem?, getElem?_tableOf hv, Option.getD_some,
    UInt16.toNat_ofNat_of_lt' (lt_of_le_of_lt hf depth.maxValue_lt)]

theorem tableOf_inj {g : ℕ → ℕ} (hf : ∀ v, f v ≤ depth.maxValue) (hg : ∀ v, g v ≤ depth.maxValue) :
    tableOf depth f = tableOf depth g ↔ ∀ v ≤ depth.maxValue, f v = g v := by
  refine ⟨fun h v hv => ?_, tableOf_congr⟩
  rw [← toNat_getD_tableOf hv (hf v) 0, h, toNat_getD_tableOf hv (hg v)]

theorem toNat_map {luts : Luts} {c : Component} (htable : luts.table c = some (tableOf depth f))
    {v : UInt16} (hv : v.toNat ≤ depth.maxValue) (hf : f v.toNat ≤ depth.maxValue) :
    (luts.map c v).toNat = f v.toNat := by
  rw [map, htable]
  exact toNat_getD_tableOf hv hf v

theorem map_of_none {luts : Luts} {c : Component} (htable : luts.table c = none) (v : UInt16) :
    luts.map c v = v := by
  rw [map, htable]
  rfl

/-- Tables are within the depth if the functions that they were made of are. -/
theorem within_of_tables {luts : Luts} (h : ∀ c, luts.table c = none
    ∨ ∃ f : ℕ → ℕ, luts.table c = some (tableOf depth f)
      ∧ ∀ v ≤ depth.maxValue, f v ≤ depth.maxValue) : luts.Within depth := by
  intro c v hv
  rcases h c with hnone | ⟨f, htable, hf⟩
  · rwa [map_of_none hnone]
  · rw [toNat_map htable hv (hf _ hv)]
    exact hf _ hv

end Luts

/-! ## Filters -/

/-- A run never fails, and it gives `result` unless it is cancelled, which only an observer does. A
filter that gives an image in this sense gives it in every run that is looked at to its end. -/
def Gives (run : Progress → Except FilterError Filtered) (result : Image) : Prop :=
  ∀ p, ∃ r, run p = .ok r ∧ (r.progress.isRunning → r.image = result)
    ∧ (p.Unobserved → r.progress.isRunning)

namespace Filter

variable {f : Filter} {source image : Image} {reference : Option Image}

theorem measured_none (source : Image) : measured source none = .ok source :=
  (rfl)

theorem measured_some {reference : Image} (hnull : reference.isNull = false)
    (hdepth : reference.depth = source.depth) :
    measured source (some reference) = .ok reference := by
  rw [measured, hnull, if_neg Bool.false_ne_true, if_neg (not_not_intro hdepth)]

theorem gives_measuring (work : Histogram → Progress → Image × Progress) {result : Image}
    (hmeasured : measured source reference = .ok image)
    (hwork : Steady (work (.ofImage image)) result) :
    Gives (fun p => f.measuring source reference p work) result := by
  intro p
  have hrun : f.measuring source reference p work
      = .ok ⟨{ f with usedReference := reference.isSome }, (work (.ofImage image) (p.post 10)).1,
        (work (.ofImage image) (p.post 10)).2⟩ := by
    rw [measuring, hmeasured]
  exact ⟨_, hrun, fun h => hwork.image h, fun h => (hwork.unobserved (h.post 10)).running⟩

/-- A filter that makes tables of what it measures. -/
theorem gives_tables (tables : Histogram → Luts) (hwf : source.WellFormed)
    (hmeasured : measured source reference = .ok image)
    (hwithin : (tables (.ofImage image)).Within source.depth) :
    Gives (fun p => f.measuring source reference p fun h progress =>
      (tables h).apply source progress ⟨10, 100⟩) ((tables (.ofImage image)).mapped source) := by
  have hsteady := Image.steady_processRows source ⟨10, 100⟩
    (Image.pixelOp source.depth (tables (.ofImage image)).mapPixel)
  rw [hwf.everyRow_pixelOp fun p hp => hwithin.fits_mapPixel hp] at hsteady
  exact gives_measuring (fun h progress => (tables h).apply source progress ⟨10, 100⟩)
    hmeasured hsteady

end Filter

end Darkroom
