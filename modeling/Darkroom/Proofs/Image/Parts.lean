import Darkroom.Proofs.Image.Overlap
import Darkroom.Proofs.Image.Symmetry
import Darkroom.Proofs.Intersection

/-!
# Parts of images

A part of an image is a block of its pixels: those that a rectangle covers and the image has, on
integers without bounds, in their old arrangement (`WellFormed.excerpt_copy`). An excerpt of an excerpt
is one of the whole image (`Excerpt.trans`), so a part that is cut twice has the pixels that both
rectangles left. What was cut out and is put back at its corner changes nothing (`WellFormed.blit_copy`).
-/

namespace Darkroom

namespace Rect

variable {r : Rect} {d : Dimensions} {i j : Int}

/-- Inside an image, what a rectangle shares with it covers what the rectangle covers. -/
theorem covers_shared (hsigned : d.IsSigned) :
    (r.intersected (ofDimensions d)).Covers i j ↔ r.Covers i j ∧ d.Holds i j := by
  obtain ⟨hwidth, hheight⟩ := hsigned
  rw [covers_intersected, covers_ofDimensions ⟨hwidth, hheight⟩, and_iff_left_iff_imp]
  rintro ⟨-, ⟨-, hi⟩, -, hj⟩
  omega

def place (r : Rect) (x y : Nat) : Nat × Nat :=
  (r.x.toInt.toNat + x, r.y.toInt.toNat + y)

end Rect

namespace Image

variable {image middle new : Image} {r : Rect} {x y x' y' : Nat} {kept kept' : Int → Int → Prop}

/-! ## Excerpts -/

/-- The new image is what an image has at the positions that are kept, in their old arrangement: a
block of pixels with its corner in column `x` and row `y`, or null if there are none. -/
structure Excerpt (new image : Image) (x y : Nat) (kept : Int → Int → Prop) : Prop where
  frame : new.isNull = false → new.depth = image.depth ∧ new.hasAlpha = image.hasAlpha
  inside : x + new.width.toNat ≤ image.width.toNat ∧ y + new.height.toNat ≤ image.height.toNat
  kept_iff : ∀ i < image.width.toNat, ∀ j < image.height.toNat,
    kept i j ↔ (x ≤ i ∧ i < x + new.width.toNat) ∧ y ≤ j ∧ j < y + new.height.toNat
  pixel : ∀ i < new.width.toNat, ∀ j < new.height.toNat,
    new.pixel i j = image.pixel (x + i) (y + j)

namespace Excerpt

/-- What is kept of what was kept. The corner of the second excerpt is one in the first. -/
theorem trans (h : Excerpt middle image x y kept) (h' : Excerpt new middle x' y' kept')
    (hnull : new.isNull = false → middle.isNull = false) :
    Excerpt new image (x + x') (y + y') fun i j => kept i j ∧ kept' (i - x) (j - y) := by
  obtain ⟨hcolumns, hrows⟩ := h.inside
  obtain ⟨hcolumns', hrows'⟩ := h'.inside
  refine ⟨fun hnew => ?_, ⟨by omega, by omega⟩, fun i hi j hj => ?_, fun i hi j hj => ?_⟩
  · obtain ⟨hdepth, halpha⟩ := h.frame (hnull hnew)
    obtain ⟨hdepth', halpha'⟩ := h'.frame hnew
    exact ⟨hdepth'.trans hdepth, halpha'.trans halpha⟩
  · rw [h.kept_iff i hi j hj]
    constructor
    · rintro ⟨⟨⟨hx, hx'⟩, hy, hy'⟩, hkept⟩
      rw [← Int.ofNat_sub hx, ← Int.ofNat_sub hy,
        h'.kept_iff (i - x) (by omega) (j - y) (by omega)] at hkept
      omega
    · intro hblock
      refine ⟨by omega, ?_⟩
      rw [← Int.ofNat_sub (by omega), ← Int.ofNat_sub (by omega),
        h'.kept_iff (i - x) (by omega) (j - y) (by omega)]
      omega
  · rw [h'.pixel i hi j hj, h.pixel _ (by omega) _ (by omega), Nat.add_assoc, Nat.add_assoc]

/-- An excerpt is null if nothing is kept. -/
theorem isNull_iff (h : Excerpt new image x y kept) (hwell : new.WellFormed) :
    new.isNull ↔ ∀ i < image.width.toNat, ∀ j < image.height.toNat, ¬kept i j := by
  constructor
  · intro hnull i hi j hj hkept
    rw [h.kept_iff i hi j hj, hwell.eq_null hnull] at hkept
    have hempty : null.width.toNat = 0 := rfl
    omega
  · intro hnone
    by_contra hnull
    have hpixels := hwell.isNull_eq_false_iff.mp (Bool.eq_false_iff.mpr hnull)
    have hwidth : 0 < new.width.toNat := Nat.pos_of_mul_pos_right hpixels
    have hheight : 0 < new.height.toNat := Nat.pos_of_mul_pos_left hpixels
    obtain ⟨hcolumns, hrows⟩ := h.inside
    refine hnone x (by omega) y (by omega) ?_
    rw [h.kept_iff x (by omega) y (by omega)]
    omega

end Excerpt

/-! ## Parts -/

def shared (image : Image) (r : Rect) : Rect :=
  r.intersected (Rect.ofDimensions image.dimensions)

theorem inside_shared (hempty : (image.shared r).isEmpty = false) :
    0 ≤ (image.shared r).x.toInt ∧ 0 ≤ (image.shared r).y.toInt
      ∧ (image.shared r).x.toInt + (image.shared r).width.toInt ≤ image.width.toNat
      ∧ (image.shared r).y.toInt + (image.shared r).height.toInt ≤ image.height.toNat := by
  obtain ⟨hx, hy, -, -, hright, hbottom⟩ := Rect.inside_intersected hempty
  exact ⟨hx, hy, hright, hbottom⟩

/-- A rectangle that shares nothing with an image has its corner in common with it. -/
theorem corner_shared (image : Image) (r : Rect) :
    0 ≤ (image.shared r).x.toInt ∧ 0 ≤ (image.shared r).y.toInt := by
  cases hempty : (image.shared r).isEmpty with
  | true =>
    have hcorner : image.shared r = ⟨0, 0, 0, 0⟩ := Rect.intersected_of_isEmpty hempty
    rw [hcorner]
    decide
  | false =>
    obtain ⟨hx, hy, -, -⟩ := inside_shared hempty
    exact ⟨hx, hy⟩

theorem WellFormed.isNull_of_shared (h : image.WellFormed)
    (hempty : (image.shared r).isEmpty = false) : image.isNull = false := by
  obtain ⟨hwidth, hheight⟩ := Rect.isEmpty_eq_false.mp hempty
  obtain ⟨hx, hy, hright, hbottom⟩ := inside_shared hempty
  refine h.isNull_eq_false_iff.mpr (Nat.mul_pos ?_ ?_) <;> dsimp only [dimensions] <;> omega

theorem WellFormed.shows_part (h : image.WellFormed) {area : Rect}
    (hinside : area.Inside image.dimensions) :
    Shows (image.part area) image ⟨area.width.toUInt32, area.height.toUInt32⟩ area.place := by
  have hcolumns := toNat_toUInt32 area.width (Int.le_of_lt hinside.width)
  have hrows := toNat_toUInt32 area.height (Int.le_of_lt hinside.height)
  obtain ⟨hx, hy, hwidth, hheight, hright, hbottom⟩ := hinside
  dsimp only [dimensions] at hright hbottom
  refine h.shows_rearranged (Nat.mul_pos ?_ ?_) (Nat.mul_le_mul ?_ ?_) area.place <;>
    dsimp only [dimensions] <;> omega

/-- A copy shows what the rectangle shares with the image, whether or not that is all of it. -/
theorem WellFormed.shows_copy (h : image.WellFormed)
    (hempty : (image.shared r).isEmpty = false) :
    Shows (image.copy (some r)) image
      ⟨(image.shared r).width.toUInt32, (image.shared r).height.toUInt32⟩
      (image.shared r).place := by
  have hcopied : Rect.copied image.dimensions (some r) = image.shared r := rfl
  rw [copy_eq_copied, hcopied, h.isNull_of_shared hempty, hempty, if_neg Bool.false_ne_true,
    if_neg Bool.false_ne_true]
  split
  · rename_i hwhole
    have hframe : (⟨(Rect.ofDimensions image.dimensions).width.toUInt32,
        (Rect.ofDimensions image.dimensions).height.toUInt32⟩ : Dimensions)
        = image.dimensions := by
      simp [Rect.ofDimensions]
    rw [hwhole, hframe]
    refine ⟨rfl, rfl, rfl, fun x _ y _ => ?_⟩
    simp [Rect.place, Rect.ofDimensions]
  · exact h.shows_part (Rect.inside_intersected hempty)

theorem copy_of_isEmpty (hempty : (image.shared r).isEmpty) : image.copy (some r) = null := by
  have hcopied : Rect.copied image.dimensions (some r) = image.shared r := rfl
  rw [copy_eq_copied, hcopied, if_pos hempty, ite_self]

/-- The size of a copy of what a rectangle shares with an image. -/
theorem WellFormed.size_copy (h : image.WellFormed)
    (hempty : (image.shared r).isEmpty = false) :
    (image.copy (some r)).width.toNat = (image.shared r).width.toInt
      ∧ (image.copy (some r)).height.toNat = (image.shared r).height.toInt := by
  obtain ⟨hwidth, hheight⟩ := Rect.isEmpty_eq_false.mp hempty
  have hframe := (h.shows_copy hempty).dimensions
  obtain ⟨hcolumns, hrows⟩ := Dimensions.mk.inj hframe
  rw [hcolumns, hrows, toNat_toUInt32 _ (Int.le_of_lt hwidth),
    toNat_toUInt32 _ (Int.le_of_lt hheight)]
  omega

/-- A copy is null if the rectangle shares nothing with the image. -/
theorem WellFormed.isNull_copy (h : image.WellFormed) (r : Rect) :
    (image.copy (some r)).isNull = (image.shared r).isEmpty := by
  cases hempty : (image.shared r).isEmpty with
  | true =>
    rw [copy_of_isEmpty hempty]
    rfl
  | false =>
    obtain ⟨hwidth, hheight⟩ := Rect.isEmpty_eq_false.mp hempty
    obtain ⟨hcolumns, hrows⟩ := h.size_copy hempty
    refine (h.copy (some r)).isNull_eq_false_iff.mpr (Nat.mul_pos ?_ ?_) <;>
      dsimp only [dimensions] <;> omega

/-- A copy of a part is the excerpt of the pixels that the rectangle covers. -/
theorem WellFormed.excerpt_copy (h : image.WellFormed) (hsigned : image.dimensions.IsSigned)
    (r : Rect) :
    Excerpt (image.copy (some r)) image (image.shared r).x.toInt.toNat
      (image.shared r).y.toInt.toNat r.Covers := by
  -- Among the positions of the image, the rectangle and what it shares cover the same ones.
  have hcovers : ∀ i < image.width.toNat, ∀ j < image.height.toNat,
      r.Covers i j ↔ (image.shared r).Covers i j := by
    intro i hi j hj
    rw [shared, Rect.covers_shared hsigned, iff_self_and]
    intro _
    exact ⟨⟨by omega, Int.ofNat_lt.mpr hi⟩, by omega, Int.ofNat_lt.mpr hj⟩
  cases hempty : (image.shared r).isEmpty with
  | true =>
    have hnone := Rect.isEmpty_iff_covers.mp hempty
    have hzero : null.width.toNat = 0 ∧ null.height.toNat = 0 := ⟨rfl, rfl⟩
    have hcorner : image.shared r = ⟨0, 0, 0, 0⟩ := Rect.intersected_of_isEmpty hempty
    rw [copy_of_isEmpty hempty]
    refine ⟨fun hnew => ?_, ?_, fun i hi j hj => ?_, fun i hi => ?_⟩
    · cases hnew
    · rw [hcorner, Int32.toInt_zero]
      omega
    · rw [hcovers i hi j hj]
      exact iff_of_false (hnone _ _) (by omega)
    · omega
  | false =>
    obtain ⟨hx, hy, hright, hbottom⟩ := inside_shared hempty
    obtain ⟨hcolumns, hrows⟩ := h.size_copy hempty
    have hshows := h.shows_copy hempty
    refine ⟨fun _ => ⟨hshows.depth, hshows.hasAlpha⟩, by omega, fun i hi j hj => ?_, ?_⟩
    · rw [hcovers i hi j hj, Rect.Covers]
      omega
    · intro i hi j hj
      have hpixel := hshows.pixel
      rw [← hshows.dimensions] at hpixel
      exact hpixel i hi j hj

/-- What was cut out and is put back at its corner changes nothing. -/
theorem WellFormed.blit_copy (h : image.WellFormed) (hsigned : image.dimensions.IsSigned)
    (hpart : (image.copy (some r)).isNull = false) :
    image.blit (image.copy (some r)) (Rect.ofDimensions (image.copy (some r)).dimensions)
      ⟨(image.shared r).x, (image.shared r).y⟩ = .ok image := by
  have hempty := (h.isNull_copy r).symm.trans hpart
  have hnull := h.isNull_of_shared hempty
  have hexcerpt := h.excerpt_copy hsigned r
  obtain ⟨hx, hy, -, -⟩ := inside_shared hempty
  obtain ⟨new, hnew, hkeeps, hpixel⟩ := blit_spec h hnull hpart (hexcerpt.frame hpart).1.symm
    (Rect.ofDimensions (image.copy (some r)).dimensions)
    ⟨(image.shared r).x, (image.shared r).y⟩
  have hsame : new = image := by
    refine hkeeps.ext_pixels (.refl [] image) (hkeeps.wellFormed h hnull) h fun i hi j hj => ?_
    rw [hpixel i hi j hj]
    split
    · rename_i hreaches
      obtain ⟨hleft, htop⟩ := hreaches.inside
      obtain ⟨-, ⟨hi', -⟩, hj', -⟩ := hreaches
      rw [hexcerpt.pixel _ hleft _ htop]
      simp only [under, Rect.ofDimensions, Int32.toInt_zero, Int.zero_add] at hi' hj' ⊢
      have hcolumn : (image.shared r).x.toInt.toNat
          + ((i : Int) - (image.shared r).x.toInt).toNat = i := by omega
      have hrow : (image.shared r).y.toInt.toNat
          + ((j : Int) - (image.shared r).y.toInt).toNat = j := by omega
      rw [hcolumn, hrow]
    · rfl
  rw [hnew, hsame]

/-- A part of a part has what both rectangles cover. -/
theorem WellFormed.excerpt_twice (h : image.WellFormed) (hsigned : image.dimensions.IsSigned)
    (r r' : Rect) :
    Excerpt ((image.crop r).crop r') image
      ((image.shared r).x.toInt.toNat + ((image.crop r).shared r').x.toInt.toNat)
      ((image.shared r).y.toInt.toNat + ((image.crop r).shared r').y.toInt.toNat)
      fun i j => r.Covers i j
        ∧ r'.Covers (i - (image.shared r).x.toInt) (j - (image.shared r).y.toInt) := by
  have hfirst : Excerpt (image.crop r) image _ _ r.Covers := h.excerpt_copy hsigned r
  have hwell : (image.crop r).WellFormed := h.copy (some r)
  have hsigned' : (image.crop r).dimensions.IsSigned :=
    ⟨Nat.lt_of_le_of_lt (Nat.le_of_add_left_le hfirst.inside.1) hsigned.1,
      Nat.lt_of_le_of_lt (Nat.le_of_add_left_le hfirst.inside.2) hsigned.2⟩
  have hsecond : Excerpt ((image.crop r).crop r') (image.crop r) _ _ r'.Covers :=
    hwell.excerpt_copy hsigned' r'
  obtain ⟨hx, hy⟩ := corner_shared image r
  have htwice := hfirst.trans hsecond fun hnew =>
    hwell.isNull_of_shared ((hwell.isNull_copy r').symm.trans hnew)
  rwa [Int.toNat_of_nonneg hx, Int.toNat_of_nonneg hy] at htwice

/-- A part of an image whose size can be that of a rectangle, for all rectangles. It is null if the
rectangle covers no pixel of the image. Else its size is that of what the rectangle and the image
share, and it has depth and alpha of the image and the pixels from the corner of the shared part on;
put back at that corner, it changes nothing. A part of a part has the pixels that both rectangles
cover, the second one moved by the corner of the first part, in their old arrangement, or is null if
there are none. -/
theorem copy_part {image : Image} (h : image.WellFormed) (hsigned : image.dimensions.IsSigned)
    (r : Rect) :
    let part := image.copy (some r)
    let area := r.intersected (Rect.ofDimensions image.dimensions)
    (part.isNull ↔ ∀ x < image.width.toNat, ∀ y < image.height.toNat, ¬r.Covers x y)
      ∧ (part.isNull = false →
        (0 ≤ area.x.toInt ∧ 0 ≤ area.y.toInt)
          ∧ (part.width.toNat = area.width.toInt ∧ part.height.toNat = area.height.toInt)
          ∧ part.depth = image.depth ∧ part.hasAlpha = image.hasAlpha
          ∧ (∀ x < part.width.toNat, ∀ y < part.height.toNat,
            part.pixel x y = image.pixel (area.x.toInt.toNat + x) (area.y.toInt.toNat + y))
          ∧ image.blit part (Rect.ofDimensions part.dimensions) ⟨area.x, area.y⟩ = .ok image)
      ∧ ∀ r' : Rect,
        let kept := fun i j : Int => r.Covers i j ∧ r'.Covers (i - area.x.toInt) (j - area.y.toInt)
        (((image.crop r).crop r').isNull
            ↔ ∀ x < image.width.toNat, ∀ y < image.height.toNat, ¬kept x y)
          ∧ ∃ x y, Excerpt ((image.crop r).crop r') image x y kept := by
  intro part area
  have hexcerpt : Excerpt part image area.x.toInt.toNat area.y.toInt.toNat r.Covers :=
    h.excerpt_copy hsigned r
  refine ⟨hexcerpt.isNull_iff (h.copy _), fun hpart => ?_, fun r' => ?_⟩
  · have hempty := (h.isNull_copy r).symm.trans hpart
    obtain ⟨hdepth, halpha⟩ := hexcerpt.frame hpart
    exact ⟨corner_shared image r, h.size_copy hempty, hdepth, halpha, hexcerpt.pixel,
      h.blit_copy hsigned hpart⟩
  · intro kept
    have htwice := h.excerpt_twice hsigned r r'
    exact ⟨htwice.isNull_iff ((h.copy _).copy _), _, _, htwice⟩

/-- A rectangle from left of the image to far below it: its part is two pixels of the second row, and
the rectangle one column to the right leaves the last of them. -/
theorem copy_part_landscape :
    let r : Rect := ⟨-1, 1, 3, 2147483647⟩
    let part := landscape.copy (some r)
    landscape.WellFormed ∧ landscape.dimensions.IsSigned ∧ part.isNull = false
      ∧ (part.width.toNat = (2 : Int) ∧ part.height.toNat = (1 : Int))
      ∧ part.pixel 1 0 = ⟨16, 17, 18, 19⟩
      ∧ landscape.blit part (Rect.ofDimensions part.dimensions) ⟨0, 1⟩ = .ok landscape
      ∧ ¬((landscape.crop r).crop ⟨1, 0, 2147483647, 2147483647⟩).isNull := by
  intro r part
  have hwell : landscape.WellFormed := Or.inr (by decide)
  have hsigned : landscape.dimensions.IsSigned := by decide
  obtain ⟨hnull, hpart, htwice⟩ := copy_part hwell hsigned r
  have hsome : part.isNull = false := by
    refine Bool.eq_false_iff.mpr fun hpart => ?_
    exact hnull.mp hpart 0 (by decide) 1 (by decide) (by decide)
  obtain ⟨-, ⟨hwidth, hheight⟩, -, -, hpixel, hback⟩ := hpart hsome
  have harea : r.intersected (Rect.ofDimensions landscape.dimensions) = ⟨0, 1, 2, 1⟩ := by decide
  rw [harea] at hwidth hheight hpixel hback
  have hwidth' : part.width.toNat = (2 : Int) := hwidth
  have hheight' : part.height.toNat = (1 : Int) := hheight
  refine ⟨hwell, hsigned, hsome, ⟨hwidth', hheight'⟩, ?_, hback, fun hcrop => ?_⟩
  · rw [hpixel 1 (Int.ofNat_lt.mp ?_) 0 (Int.ofNat_lt.mp ?_)]
    · decide
    · rw [hwidth']
      decide
    · rw [hheight']
      decide
  · exact (htwice ⟨1, 0, 2147483647, 2147483647⟩).1.mp hcrop 1 (by decide) 1 (by decide)
      (by decide)

end Image

end Darkroom
