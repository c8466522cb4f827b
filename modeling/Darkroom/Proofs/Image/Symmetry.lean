import Darkroom.Image.Symmetry
import Darkroom.Proofs.Image.CheckedMoves
import Darkroom.Proofs.Image.Pixels

/-!
# Rotations, flips and orientations

Every rotation, flip and orientation moves an image by a symmetry of the rectangle
(`WellFormed.rotate_eq`, `WellFormed.flip_eq`, `WellFormed.upright?_eq`), and moving it by two
symmetries one after the other is moving it by one (`WellFormed.moved_moved`). So each law about
turns and flips of images of any size is a computation with the eight symmetries, and the laws
together say that turns and flips act as these do (`Image.TurnsAsSymmetries`).
-/

namespace Darkroom

/-! ## The eight symmetries -/

namespace Symmetry

variable {d : Dimensions} {x y : Nat}

theorem frame_andThen (s t : Symmetry) (d : Dimensions) :
    t.frame (s.frame d) = (s.andThen t).frame d := by
  obtain ⟨transposes, -, -⟩ := s
  obtain ⟨transposes', -, -⟩ := t
  cases transposes <;> cases transposes' <;> rfl

theorem pixels_frame (s : Symmetry) (d : Dimensions) : (s.frame d).pixels = d.pixels := by
  rw [frame]
  split
  · exact Nat.mul_comm _ _
  · rfl

theorem along_lt {size place : Nat} (h : place < size) (mirrors : Bool) :
    along mirrors size place < size := by
  rw [along]
  split <;> omega

/-- Counting from the far end twice is counting from the near one. -/
theorem along_along {size place : Nat} (h : place < size) (mirrors mirrors' : Bool) :
    along mirrors size (along mirrors' size place) = along (mirrors != mirrors') size place := by
  cases mirrors <;> cases mirrors' <;> simp [along]
  omega

theorem shown_lt (s : Symmetry) (hx : x < (s.frame d).width.toNat)
    (hy : y < (s.frame d).height.toNat) :
    (s.shown d x y).1 < d.width.toNat ∧ (s.shown d x y).2 < d.height.toNat := by
  obtain ⟨transposes, mirrorsX, mirrorsY⟩ := s
  cases transposes with
  | false => exact ⟨along_lt hx _, along_lt hy _⟩
  | true => exact ⟨along_lt hy _, along_lt hx _⟩

theorem shown_andThen (s t : Symmetry) (hx : x < (t.frame (s.frame d)).width.toNat)
    (hy : y < (t.frame (s.frame d)).height.toNat) :
    s.shown d (t.shown (s.frame d) x y).1 (t.shown (s.frame d) x y).2
      = (s.andThen t).shown d x y := by
  obtain ⟨transposes, mirrorsX, mirrorsY⟩ := s
  obtain ⟨transposes', mirrorsX', mirrorsY'⟩ := t
  -- Whichever of the two exchanges columns and rows, a coordinate runs along one axis of the old
  -- rectangle, and both counts are made along that one.
  cases transposes <;> cases transposes' <;> simp [frame] at hx hy <;>
    simp [shown, andThen, frame, along_along, hx, hy]

end Symmetry

namespace Image

variable {image new : Image} {d d' : Dimensions} {place place' : Nat → Nat → Nat × Nat}

/-! ## Rearranged pixels -/

/-- The new image has the old pixels at given positions, in a frame of some size. Rotations and
flips are all of this kind, so their composition is the composition of the positions. -/
structure Shows (new old : Image) (d : Dimensions) (place : Nat → Nat → Nat × Nat) : Prop where
  dimensions : new.dimensions = d
  depth : new.depth = old.depth
  hasAlpha : new.hasAlpha = old.hasAlpha
  pixel : ∀ x < d.width.toNat, ∀ y < d.height.toNat,
    new.pixel x y = old.pixel (place x y).1 (place x y).2

theorem wellFormed_rearranged (image : Image) (d : Dimensions)
    (place : Nat → Nat → Nat × Nat) : (image.rearranged d place).WellFormed :=
  wellFormed_ofPixels _ _ _ _

/-- There is room for as many pixels as an image has, and for fewer. -/
theorem WellFormed.shows_rearranged (h : image.WellFormed) (hpos : 0 < d.pixels)
    (hd : d.pixels ≤ image.pixelCount) (place : Nat → Nat → Nat × Nat) :
    Shows (image.rearranged d place) image d place := by
  have hlen := byteLength?_of_le h.isSome_byteLength hd
  have hnew : image.rearranged d place
      = ⟨d.width, d.height, image.depth, image.hasAlpha, _⟩ :=
    Image.ofPixels_eq hlen hpos _ _
  refine ⟨?_, ?_, ?_, fun x hx y hy => pixel_ofPixels hlen hx hy (fits_pixel image _ _)⟩
  · rw [hnew]
    rfl
  · rw [hnew]
  · rw [hnew]

/-- Two rearrangements, one after the other. -/
theorem Shows.trans {old middle : Image} (h : Shows middle old d place)
    (h' : Shows new middle d' place')
    (hinside : ∀ x < d'.width.toNat, ∀ y < d'.height.toNat,
      (place' x y).1 < d.width.toNat ∧ (place' x y).2 < d.height.toNat) :
    Shows new old d' fun x y => place (place' x y).1 (place' x y).2 := by
  refine ⟨h'.dimensions, h'.depth.trans h.depth, h'.hasAlpha.trans h.hasAlpha,
    fun x hx y hy => ?_⟩
  obtain ⟨hx', hy'⟩ := hinside x hx y hy
  rw [h'.pixel x hx y hy, h.pixel _ hx' _ hy']

/-- Well-formed images that show the same pixels are equal. -/
theorem Shows.unique {old new' : Image} (h : Shows new old d place) (h' : Shows new' old d place')
    (hnew : new.WellFormed) (hnew' : new'.WellFormed)
    (hplace : ∀ x < d.width.toNat, ∀ y < d.height.toNat, place x y = place' x y) : new = new' := by
  refine hnew.ext_pixels hnew'
    ⟨h.dimensions.trans h'.dimensions.symm, h.depth.trans h'.depth.symm,
      h.hasAlpha.trans h'.hasAlpha.symm⟩ fun x hx y hy => ?_
  have hx' : x < d.width.toNat := h.dimensions ▸ hx
  have hy' : y < d.height.toNat := h.dimensions ▸ hy
  rw [h.pixel x hx' y hy', h'.pixel x hx' y hy', hplace x hx' y hy']

/-! ## Moved images -/

theorem moved_null (s : Symmetry) : null.moved s = null := by
  obtain ⟨transposes, -, -⟩ := s
  cases transposes <;> rfl

theorem wellFormed_moved (image : Image) (s : Symmetry) : (image.moved s).WellFormed :=
  wellFormed_rearranged _ _ _

theorem WellFormed.shows_moved (h : image.WellFormed) (hnull : image.isNull = false)
    (s : Symmetry) :
    Shows (image.moved s) image (s.frame image.dimensions) (s.shown image.dimensions) := by
  have hpixels := s.pixels_frame image.dimensions
  refine h.shows_rearranged ?_ (Nat.le_of_eq hpixels) _
  rw [hpixels]
  exact h.isNull_eq_false_iff.mp hnull

theorem WellFormed.isNull_moved (h : image.WellFormed) (s : Symmetry) :
    (image.moved s).isNull = image.isNull := by
  cases hnull : image.isNull with
  | true =>
    rw [h.eq_null hnull, moved_null]
    rfl
  | false =>
    have hpos := h.isNull_eq_false_iff.mp hnull
    rw [(wellFormed_moved image s).isNull_eq_false_iff, pixelCount,
      (h.shows_moved hnull s).dimensions, s.pixels_frame]
    exact hpos

/-- To move an image by two symmetries is to move it by both at once. -/
theorem WellFormed.moved_moved (h : image.WellFormed) (s t : Symmetry) :
    (image.moved s).moved t = image.moved (s.andThen t) := by
  cases hnull : image.isNull with
  | true => rw [h.eq_null hnull, moved_null, moved_null, moved_null]
  | false =>
    have hfirst := h.shows_moved hnull s
    have hsecond :=
      (wellFormed_moved image s).shows_moved ((h.isNull_moved s).trans hnull) t
    rw [hfirst.dimensions] at hsecond
    have hboth := hfirst.trans hsecond fun x hx y hy => t.shown_lt hx hy
    have hone := h.shows_moved hnull (s.andThen t)
    rw [← s.frame_andThen] at hone
    exact hboth.unique hone (wellFormed_moved _ t) (wellFormed_moved image _)
      fun x hx y hy => s.shown_andThen t hx hy

theorem WellFormed.moved_identity (h : image.WellFormed) : image.moved .identity = image := by
  cases hnull : image.isNull with
  | true => rw [h.eq_null hnull, moved_null]
  | false =>
    have hself : Shows image image image.dimensions (Symmetry.identity.shown image.dimensions) :=
      ⟨rfl, rfl, rfl, fun _ _ _ _ => rfl⟩
    exact (h.shows_moved hnull .identity).unique hself (wellFormed_moved image _) h
      fun _ _ _ _ => rfl

/-! ## Turns and flips -/

theorem WellFormed.rotate_eq (h : image.WellFormed) (rotation : Rotation) :
    image.rotate rotation = image.moved (.ofRotation rotation) := by
  cases hnull : image.isNull with
  | true =>
    rw [h.eq_null hnull, moved_null]
    rfl
  | false =>
    rw [Image.rotate, hnull, if_neg Bool.false_ne_true]
    cases rotation <;> rfl

theorem WellFormed.flip_eq (h : image.WellFormed) (axis : Flip) :
    image.flip axis = image.moved (.ofFlip axis) := by
  cases hnull : image.isNull with
  | true =>
    rw [h.eq_null hnull, moved_null]
    cases axis <;> rfl
  | false =>
    rw [Image.flip, h.mapPixels_eq]
    cases axis with
    | horizontal => exact (h.ofPixels_eq hnull rfl _ _).symm
    | vertical => exact (h.ofPixels_eq hnull rfl _ _).symm

theorem WellFormed.rotate_moved (h : image.WellFormed) (s : Symmetry) (rotation : Rotation) :
    (image.moved s).rotate rotation = image.moved (s.andThen (.ofRotation rotation)) := by
  rw [(wellFormed_moved image s).rotate_eq, h.moved_moved]

theorem WellFormed.flip_moved (h : image.WellFormed) (s : Symmetry) (axis : Flip) :
    (image.moved s).flip axis = image.moved (s.andThen (.ofFlip axis)) := by
  rw [(wellFormed_moved image s).flip_eq, h.moved_moved]

theorem WellFormed.upright?_eq (h : image.WellFormed) (hnull : image.isNull = false)
    (code : UInt16) :
    image.upright? code = (Symmetry.ofOrientation? code.toNat).map image.moved := by
  rw [Image.upright?, hnull, if_neg Bool.false_ne_true]
  simp only [h.rotate_eq, h.flip_eq, h.flip_moved]
  split
  case h_8 => simp_all [Symmetry.ofOrientation?]
  all_goals
    rename_i hcode
    rw [hcode]
    rfl

/-! ## Orientation codes -/

/-- Every code has its symmetry, and the inverse code the inverse one. -/
theorem exists_ofOrientation? {code : UInt16} (hlow : 2 ≤ code.toNat) (hhigh : code.toNat ≤ 8) :
    ∃ s t, Symmetry.ofOrientation? code.toNat = some s
      ∧ Symmetry.ofOrientation? (inverseOrientation code).toNat = some t
      ∧ s.andThen t = .identity := by
  have hcode : code = 2 ∨ code = 3 ∨ code = 4 ∨ code = 5 ∨ code = 6 ∨ code = 7 ∨ code = 8 := by
    simp only [← UInt16.toNat_inj, UInt16.reduceToNat]
    omega
  rcases hcode with rfl | rfl | rfl | rfl | rfl | rfl | rfl <;> exact ⟨_, _, rfl, rfl, rfl⟩

theorem ofOrientation?_eq_none {n : Nat} (h : ¬(2 ≤ n ∧ n ≤ 8)) :
    Symmetry.ofOrientation? n = none := by
  rw [Symmetry.ofOrientation?] <;> omega

/-- An image brought upright by a code, and then by the inverse code, is as it was. -/
theorem WellFormed.exists_upright? (h : image.WellFormed) (hnull : image.isNull = false)
    {code : UInt16} (hlow : 2 ≤ code.toNat) (hhigh : code.toNat ≤ 8) :
    ∃ turned, image.upright? code = some turned
      ∧ turned.upright? (inverseOrientation code) = some image := by
  obtain ⟨s, t, hs, ht, hback⟩ := exists_ofOrientation? hlow hhigh
  have hturned : (image.moved s).isNull = false := (h.isNull_moved s).trans hnull
  refine ⟨image.moved s, ?_, ?_⟩
  · rw [h.upright?_eq hnull, hs, Option.map_some]
  · rw [(wellFormed_moved image s).upright?_eq hturned, ht, Option.map_some, h.moved_moved, hback,
      h.moved_identity]

/-- Whether a code changes the image is what it answers. -/
theorem change_upright (image : Image) (code : UInt16) :
    ((Edit.upright code).change image).2 = .changed (image.upright? code).isSome
      ∧ (image.upright? code = none →
        (Edit.upright code).change image = (.keep, .changed false)) := by
  rw [Edit.change]
  cases image.upright? code with
  | none => exact ⟨rfl, fun _ => rfl⟩
  | some new =>
    refine ⟨?_, fun hnone => by cases hnone⟩
    dsimp only
    split <;> rfl

/-- Rotations, flips and orientation codes act on an image as the symmetries of the rectangle. The first
fields say which old pixel each of them shows in column `x` and row `y`, the next ones that they undo one
another as the symmetries do. Codes from 2 to 8 change the image, each undone by its inverse, and all other
codes leave it alone. The loops over bytes with checked indices do the same. -/
structure TurnsAsSymmetries (image : Image) : Prop where
  quarter : Shows (image.rotate .quarter) image ⟨image.height, image.width⟩
    fun x y => (y, image.height.toNat - 1 - x)
  half : Shows (image.rotate .half) image image.dimensions
    fun x y => (image.width.toNat - 1 - x, image.height.toNat - 1 - y)
  threeQuarters : Shows (image.rotate .threeQuarters) image ⟨image.height, image.width⟩
    fun x y => (image.width.toNat - 1 - y, x)
  horizontal : Shows (image.flip .horizontal) image image.dimensions
    fun x y => (image.width.toNat - 1 - x, y)
  vertical : Shows (image.flip .vertical) image image.dimensions
    fun x y => (x, image.height.toNat - 1 - y)
  transpose : ∃ new, image.upright? 5 = some new
    ∧ Shows new image ⟨image.height, image.width⟩ fun x y => (y, x)
  antitranspose : ∃ new, image.upright? 7 = some new
    ∧ Shows new image ⟨image.height, image.width⟩
      fun x y => (image.width.toNat - 1 - y, image.height.toNat - 1 - x)
  quarter_four_times :
    (((image.rotate .quarter).rotate .quarter).rotate .quarter).rotate .quarter = image
  quarter_threeQuarters : (image.rotate .quarter).rotate .threeQuarters = image
  half_half : (image.rotate .half).rotate .half = image
  flip_flip : ∀ axis, (image.flip axis).flip axis = image
  horizontal_vertical : (image.flip .horizontal).flip .vertical = image.rotate .half
  vertical_horizontal : (image.flip .vertical).flip .horizontal = image.rotate .half
  orientation : ∀ code : UInt16, 2 ≤ code.toNat → code.toNat ≤ 8 →
    ((Edit.upright code).change image).2 = .changed true
      ∧ ∃ turned, image.upright? code = some turned
        ∧ turned.upright? (inverseOrientation code) = some image
  other_code : ∀ code : UInt16, ¬(2 ≤ code.toNat ∧ code.toNat ≤ 8) →
    (Edit.upright code).change image = (.keep, .changed false)
      ∧ (Edit.upright code).result image = image
  rotate_checked : ∀ rotation, Checked.rotate image rotation = some (image.rotate rotation)
  flip_checked : ∀ axis, Checked.flip image axis = some (image.flip axis)
  upright_checked : ∀ code, Checked.upright image code = some (image.upright? code)

/-- Turns and flips of images of any size and depth are the eight symmetries. -/
theorem turns_and_flips {image : Image} (h : image.WellFormed) (hnull : image.isNull = false) :
    image.TurnsAsSymmetries where
  quarter := by
    rw [h.rotate_eq]
    exact h.shows_moved hnull _
  half := by
    rw [h.rotate_eq]
    exact h.shows_moved hnull _
  threeQuarters := by
    rw [h.rotate_eq]
    exact h.shows_moved hnull _
  horizontal := by
    rw [h.flip_eq]
    exact h.shows_moved hnull _
  vertical := by
    rw [h.flip_eq]
    exact h.shows_moved hnull _
  transpose := ⟨_, h.upright?_eq hnull 5, h.shows_moved hnull _⟩
  antitranspose := ⟨_, h.upright?_eq hnull 7, h.shows_moved hnull _⟩
  quarter_four_times := by
    simp only [h.rotate_eq, h.rotate_moved]
    exact h.moved_identity
  quarter_threeQuarters := by
    rw [h.rotate_eq, h.rotate_moved]
    exact h.moved_identity
  half_half := by
    rw [h.rotate_eq, h.rotate_moved]
    exact h.moved_identity
  flip_flip axis := by
    rw [h.flip_eq, h.flip_moved]
    cases axis <;> exact h.moved_identity
  horizontal_vertical := by
    rw [h.flip_eq, h.flip_moved, h.rotate_eq]
    rfl
  vertical_horizontal := by
    rw [h.flip_eq, h.flip_moved, h.rotate_eq]
    rfl
  orientation code hlow hhigh := by
    obtain ⟨turned, hturned, hback⟩ := h.exists_upright? hnull hlow hhigh
    refine ⟨?_, turned, hturned, hback⟩
    rw [(change_upright image code).1, hturned]
    rfl
  other_code code hcode := by
    have hnone : image.upright? code = none := by
      rw [h.upright?_eq hnull, ofOrientation?_eq_none hcode, Option.map_none]
    refine ⟨(change_upright image code).2 hnone, ?_⟩
    rw [Edit.result, hnone, Option.getD_none]
  rotate_checked := Checked.rotate_eq h
  flip_checked := Checked.flip_eq h
  upright_checked := Checked.upright_eq h

def landscape : Image :=
  ⟨3, 2, .eight, false,
    #[0, 1, 2, 3, 4, 5, 6, 7, 8, 9, 10, 11, 12, 13, 14, 15, 16, 17, 18, 19, 20, 21, 22, 23]⟩

/-- A quarter turn brings the lower left corner to the upper left, and code 8 turns it back. -/
theorem turns_and_flips_landscape :
    landscape.WellFormed ∧ landscape.isNull = false
      ∧ (landscape.rotate .quarter).dimensions = ⟨2, 3⟩
      ∧ (landscape.rotate .quarter).pixel 0 0 = ⟨12, 13, 14, 15⟩
      ∧ ∃ turned, landscape.upright? 6 = some turned ∧ turned.upright? 8 = some landscape := by
  have hwell : landscape.WellFormed := Or.inr (by decide)
  have hturns := turns_and_flips hwell rfl
  obtain ⟨-, turned, hturned, hback⟩ := hturns.orientation 6 (by decide) (by decide)
  refine ⟨hwell, rfl, hturns.quarter.dimensions, ?_, turned, hturned, hback⟩
  rw [hturns.quarter.pixel 0 (by decide) 0 (by decide)]
  rfl

end Image

end Darkroom
