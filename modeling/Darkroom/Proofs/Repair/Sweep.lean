import Darkroom.Proofs.Image.Stored
import Darkroom.Proofs.Repair.Neighbours

/-!
# Sweeps over a rectangle

A sweep takes one step at each pixel of a rectangle, each on the image that the steps before it left
behind. Those differ from the first image inside the rectangle only (`SameOff`). So if what a step does
to its pixel depends on the image outside of the rectangle only, the whole sweep is one repainting of
the rectangle (`sweep_eq_repainted`).
-/

namespace Darkroom

namespace Image

/-! ## Repainted images -/

/-- The image with other pixels where a rectangle covers it. A sweep over the rectangle is proved to
be this, though it writes one pixel after the other into the image that it reads. -/
def repainted (image : Image) (r : Rect) (new : Nat → Nat → Pixel → Pixel) : Image :=
  image.mapPixels fun x y =>
    if r.Covers x y then new x y (image.pixel x y) else image.pixel x y

/-- Images of one frame with the same pixels outside of a rectangle. It is what a repair keeps, and
all that the ring and the neighbours can see of an image. -/
structure SameOff (r : Rect) (a b : Image) : Prop where
  frame : a.SameFrame b
  pixel : ∀ x < a.width.toNat, ∀ y < a.height.toNat, ¬r.Covers x y → a.pixel x y = b.pixel x y

variable {image a b c : Image} {r : Rect} {x y : Nat} {new : Nat → Nat → Pixel → Pixel}

theorem SameOff.refl (r : Rect) (image : Image) : SameOff r image image :=
  ⟨⟨rfl, rfl, rfl⟩, fun _ _ _ _ _ => rfl⟩

theorem SameOff.trans (h : SameOff r a b) (h' : SameOff r b c) : SameOff r a c := by
  refine ⟨h.frame.trans h'.frame, fun x hx y hy hout => ?_⟩
  rw [h.pixel x hx y hy hout]
  exact h'.pixel x (h.frame.width ▸ hx) y (h.frame.height ▸ hy) hout

theorem WellFormed.mapPixels_mapPixels (h : image.WellFormed) (f g : Nat → Nat → Pixel) :
    (image.mapPixels f).mapPixels g = image.mapPixels g := by
  rw [(h.mapPixels f).mapPixels_eq, h.mapPixels_eq f, h.mapPixels_eq g]

theorem WellFormed.pixel_repainted (h : image.WellFormed) (hx : x < image.width.toNat)
    (hy : y < image.height.toNat) :
    (image.repainted r new).pixel x y
      = if r.Covers x y then (new x y (image.pixel x y)).stored image.depth
        else image.pixel x y := by
  rw [repainted, h.pixel_mapPixels_stored _ hx hy]
  split
  · rfl
  · exact image.stored_pixel x y

theorem WellFormed.repainted (h : image.WellFormed) (r : Rect) (new : Nat → Nat → Pixel → Pixel) :
    (image.repainted r new).WellFormed :=
  h.mapPixels _

theorem WellFormed.sameOff_repainted (h : image.WellFormed) (r : Rect)
    (new : Nat → Nat → Pixel → Pixel) : SameOff r image (image.repainted r new) :=
  ⟨(h.sameFrame_mapPixels _).symm, fun x hx y hy hout => by
    rw [h.pixel_repainted hx hy, if_neg hout]⟩

/-- Repainting that changes nothing. -/
theorem WellFormed.repainted_eq_self (h : image.WellFormed)
    (hsame : ∀ x < image.width.toNat, ∀ y < image.height.toNat, r.Covers x y →
      (new x y (image.pixel x y)).stored image.depth = image.pixel x y) :
    image.repainted r new = image := by
  refine h.mapPixels_eq_self fun x hx y hy => ?_
  split
  · exact hsame x hx y hy ‹_›
  · exact image.stored_pixel x y

/-- Repainting the same rectangle twice, if the new pixels of the first time fit. -/
theorem WellFormed.repainted_repainted (h : image.WellFormed)
    {new' : Nat → Nat → Pixel → Pixel}
    (hfits : ∀ x y, (new x y (image.pixel x y)).Fits image.depth) :
    (image.repainted r new).repainted r new'
      = image.repainted r fun x y old => new' x y (new x y old) := by
  refine (h.mapPixels_mapPixels _ _).trans (h.mapPixels_congr fun x hx y hy => ?_)
  rw [h.pixel_repainted hx hy]
  split
  · rw [Pixel.stored_of_fits (hfits x y)]
  · rfl

end Image

namespace Repair.InPlace

open Image (SameOff)

variable {base image : Image} {r : Rect} {new : Nat → Nat → Pixel → Pixel}

/-! ## Steps one after the other -/

/-- Changing a pixel inside an image is new pixels of which only this one is new. -/
theorem change_eq (h : image.WellFormed) {x y : Nat} {X Y : Int32} (hX : X.toInt = x)
    (hY : Y.toInt = y) (hx : x < image.width.toNat) (hy : y < image.height.toNat)
    (f : Pixel → Pixel) :
    change f image X Y
      = image.mapPixels fun i j =>
          if i = x ∧ j = y then f (image.pixel i j) else image.pixel i j := by
  have hold : pixelAt? image X Y = some (image.pixel x y) := by
    rw [pixelAt?, hX, hY, pixel?, if_pos (by omega), Int.toNat_natCast, Int.toNat_natCast]
  have hcolumn : X.toUInt32.toNat = x := by
    rw [toNat_toUInt32 X (by omega), hX, Int.toNat_natCast]
  have hrow : Y.toUInt32.toNat = y := by
    rw [toNat_toUInt32 Y (by omega), hY, Int.toNat_natCast]
  have hdepth := Image.Checked.toDepth_self ⟨f (image.pixel x y), image.depth⟩
  dsimp only at hdepth
  simp only [change, hold, hcolumn, hrow, Image.setPixel, hdepth]
  refine h.mapPixels_congr fun i hi j hj => ?_
  split
  · rename_i hplace
    rw [hplace.1, hplace.2]
  · rfl

/-- Steps at different pixels of a rectangle. What a step writes there depends on the image outside of
the rectangle only, so it is the same whichever steps were taken before. -/
theorem foldl_eq_mapPixels (new : Nat → Nat → Pixel → Pixel) {step : Image → Nat × Nat → Image}
    {places : List (Nat × Nat)} (hnodup : places.Nodup) (hcovers : ∀ p ∈ places, r.Covers p.1 p.2)
    (hstep : ∀ {image : Image}, image.WellFormed → SameOff r base image → ∀ p ∈ places,
      step image p = image.mapPixels fun x y =>
        if x = p.1 ∧ y = p.2 then new x y (image.pixel x y) else image.pixel x y)
    (h : image.WellFormed) (hbase : SameOff r base image) :
    places.foldl step image = image.mapPixels fun x y =>
      if (x, y) ∈ places then new x y (image.pixel x y) else image.pixel x y := by
  induction places generalizing image with
  | nil =>
    refine (h.mapPixels_eq_self fun x _ y _ => ?_).symm
    rw [if_neg List.not_mem_nil]
    exact image.stored_pixel x y
  | cons p rest ih =>
    obtain ⟨hfresh, hrest⟩ := List.nodup_cons.mp hnodup
    rw [List.foldl_cons, hstep h hbase p List.mem_cons_self]
    have hshown : ∀ x < image.width.toNat, ∀ y < image.height.toNat,
        (image.mapPixels fun x y =>
          if x = p.1 ∧ y = p.2 then new x y (image.pixel x y) else image.pixel x y).pixel x y
        = if x = p.1 ∧ y = p.2 then (new x y (image.pixel x y)).stored image.depth
          else image.pixel x y := by
      intro x hx y hy
      rw [h.pixel_mapPixels_stored _ hx hy]
      split
      · rfl
      · exact image.stored_pixel x y
    have hnext : SameOff r image (image.mapPixels fun x y =>
        if x = p.1 ∧ y = p.2 then new x y (image.pixel x y) else image.pixel x y) := by
      refine ⟨(h.sameFrame_mapPixels _).symm, fun x hx y hy hout => ?_⟩
      rw [hshown x hx y hy, if_neg]
      rintro ⟨rfl, rfl⟩
      exact hout (hcovers p List.mem_cons_self)
    rw [ih hrest (fun q hq => hcovers q (List.mem_cons_of_mem p hq))
      (fun hwf hsame q hq => hstep hwf hsame q (List.mem_cons_of_mem p hq)) (h.mapPixels _)
      (hbase.trans hnext), h.mapPixels_mapPixels]
    refine h.mapPixels_congr fun x hx y hy => ?_
    rw [hshown x hx y hy]
    by_cases hp : x = p.1 ∧ y = p.2
    · obtain ⟨rfl, rfl⟩ := hp
      rw [if_neg hfresh, if_pos ⟨rfl, rfl⟩, if_pos List.mem_cons_self]
      exact Pixel.stored_stored _ _
    · have hmem : (x, y) ∈ p :: rest ↔ (x, y) ∈ rest := by
        rw [List.mem_cons, or_iff_right]
        exact fun heq => hp (Prod.mk.inj heq)
      simp only [if_neg hp, hmem]

/-! ## Sweeps -/

theorem mem_positions_spotOf {d : Dimensions} (h : r.IsClip d) {x y : Nat} :
    (x, y) ∈ Image.positions (spotOf r).x (spotOf r).y (spotOf r).width (spotOf r).height
      ↔ r.Covers x y := by
  obtain ⟨⟨hsx, hsy⟩, hsw, hsh⟩ := spotOf_eq h
  rw [Image.Checked.mem_positions, Rect.Covers]
  omega

/-- A sweep whose steps change the pixel at hand, by what the image shows outside of the rectangle, is
a repainting. -/
theorem sweep_eq_repainted (h : image.WellFormed) (hclip : r.IsClip image.dimensions)
    {columns rows : List Int32} {step : Image → Int32 → Int32 → Image} {f g : Nat → Int32}
    (hcolumns : columns = (List.range (spotOf r).width).map fun i => f ((spotOf r).x + i))
    (hrows : rows = (List.range (spotOf r).height).map fun j => g ((spotOf r).y + j))
    (hstep : ∀ {next : Image}, next.WellFormed → SameOff r image next →
      ∀ x < next.width.toNat, ∀ y < next.height.toNat, r.Covers x y →
      step next (f x) (g y) = next.mapPixels fun i j =>
        if i = x ∧ j = y then new i j (next.pixel i j) else next.pixel i j) :
    sweep columns rows step image = image.repainted r new := by
  have hfold : sweep columns rows step image
      = (Image.positions (spotOf r).x (spotOf r).y (spotOf r).width (spotOf r).height).foldl
          (fun image p => step image (f p.1) (g p.2)) image := by
    rw [sweep, hcolumns, hrows, Image.positions]
    simp only [List.foldl_map, List.foldl_flatMap]
  have hcovers : ∀ p ∈ Image.positions (spotOf r).x (spotOf r).y (spotOf r).width (spotOf r).height,
      r.Covers p.1 p.2 := fun p hp => (mem_positions_spotOf hclip).mp hp
  rw [hfold, foldl_eq_mapPixels new (Image.Checked.nodup_positions _ _ _ _) hcovers
    (fun {next} hwf hsame p hp => ?_) h (.refl r image)]
  · simp only [mem_positions_spotOf hclip]
    rfl
  · obtain ⟨⟨-, hx⟩, -, hy⟩ := hclip.holds_of_covers (hcovers p hp)
    have hwidth := hsame.frame.width
    have hheight := hsame.frame.height
    change (p.1 : Int) < image.width.toNat at hx
    change (p.2 : Int) < image.height.toNat at hy
    exact hstep hwf hsame p.1 (by rw [← hwidth]; omega) p.2 (by rw [← hheight]; omega)
      (hcovers p hp)

end Repair.InPlace

end Darkroom
