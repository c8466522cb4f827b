import Darkroom.Image.Edit
import Darkroom.Proofs.Geometry

/-!
# Images stay well-formed

A well-formed image is null, or has a positive size and exactly the bytes of its pixels. New images
are made by `ofPixels`, which is well-formed whatever the pixels (`wellFormed_ofPixels`), and all
other operations keep the frame and the number of bytes (`WellFormed.of_frame`). So every edit of a
well-formed image gives one (`Edit.wellFormed_result`).
-/

namespace Darkroom.Image

/-! ## The two ways of being well-formed -/

theorem byteLength?_eq_some {d : Dimensions} {depth : Depth} {n : Nat} :
    byteLength? d depth = some n
      ↔ n = d.pixels * depth.pixelBytes ∧ n < 0x8000000000000000 := by
  simp only [byteLength?, Option.ite_none_right_eq_some, Option.some.injEq]
  constructor
  · rintro ⟨hlt, rfl⟩
    exact ⟨rfl, hlt⟩
  · rintro ⟨rfl, hlt⟩
    exact ⟨hlt, rfl⟩

theorem wellFormed_null : WellFormed null :=
  Or.inl rfl

theorem WellFormed.eq_null {image : Image} (h : image.WellFormed) (hnull : image.isNull) :
    image = null := by
  rcases h with h | ⟨hw, hh, hsize⟩
  · exact h
  · rw [isNull, Array.isEmpty_iff_size_eq_zero] at hnull
    rw [hnull, byteLength?_eq_some, dimensions, Dimensions.pixels] at hsize
    have hpos : 0 < image.width.toNat * image.height.toNat * image.depth.pixelBytes :=
      Nat.mul_pos (Nat.mul_pos (UInt32.lt_iff_toNat_lt.mp hw) (UInt32.lt_iff_toNat_lt.mp hh))
        (by cases image.depth <;> decide)
    exact absurd hsize.1 (Nat.ne_of_lt hpos)

theorem WellFormed.bytes_size {image : Image} (h : image.WellFormed) :
    image.bytes.size = image.pixelCount * image.depth.pixelBytes := by
  rcases h with rfl | ⟨-, -, hsize⟩
  · rfl
  · exact (byteLength?_eq_some.mp hsize).1

theorem WellFormed.of_frame {image new : Image} (h : image.WellFormed)
    (hnull : image.isNull = false) (hwidth : new.width = image.width)
    (hheight : new.height = image.height) (hdepth : new.depth = image.depth)
    (hsize : new.bytes.size = image.bytes.size) : new.WellFormed := by
  rcases h with rfl | ⟨hw, hh, hlen⟩
  · cases hnull
  · refine Or.inr ⟨hwidth ▸ hw, hheight ▸ hh, ?_⟩
    rw [hsize, hdepth, dimensions, hwidth, hheight]
    exact hlen

/-! ## New images -/

@[simp]
theorem size_pixelBytes (width height : Nat) (depth : Depth) (f : Nat → Nat → Pixel) :
    (pixelBytes width height depth f).size = width * height * depth.pixelBytes :=
  Array.size_ofFn

theorem wellFormed_ofPixels (d : Dimensions) (depth : Depth) (hasAlpha : Bool)
    (f : Nat → Nat → Pixel) : (ofPixels d depth hasAlpha f).WellFormed := by
  unfold ofPixels
  split
  · exact wellFormed_null
  · rename_i n hn
    split
    · exact wellFormed_null
    · rename_i hpos
      have hlen := (byteLength?_eq_some.mp hn).1
      rw [Dimensions.pixels] at hlen
      refine Or.inr ⟨UInt32.lt_iff_toNat_lt.mpr ?_, UInt32.lt_iff_toNat_lt.mpr ?_, ?_⟩
      · refine Nat.pos_of_ne_zero fun hw => hpos ?_
        rw [hlen, show d.width.toNat = 0 from hw, Nat.zero_mul, Nat.zero_mul]
      · refine Nat.pos_of_ne_zero fun hh => hpos ?_
        rw [hlen, show d.height.toNat = 0 from hh, Nat.mul_zero, Nat.zero_mul]
      · rw [size_pixelBytes, ← hlen]
        exact hn

section Operations

variable {image : Image}

theorem WellFormed.mapPixels (h : image.WellFormed) (f : Nat → Nat → Pixel) :
    (image.mapPixels f).WellFormed := by
  unfold Image.mapPixels
  split
  · exact h
  · rename_i hnull
    refine h.of_frame (Bool.eq_false_iff.mpr hnull) rfl rfl rfl ?_
    rw [size_pixelBytes, h.bytes_size, pixelCount, dimensions, Dimensions.pixels]

/-- Dropping alpha changes a flag only, which the shape does not depend on. -/
theorem WellFormed.withoutAlpha (h : image.WellFormed) (hnull : image.isNull = false) :
    ({ image with hasAlpha := false } : Image).WellFormed :=
  h.of_frame hnull rfl rfl rfl rfl

theorem isNull_mapPixels (h : image.WellFormed) (f : Nat → Nat → Pixel) :
    (image.mapPixels f).isNull = image.isNull := by
  cases hnull : image.isNull with
  | true => rw [Image.mapPixels, if_pos hnull, hnull]
  | false =>
      rw [Image.mapPixels, hnull, if_neg Bool.false_ne_true]
      simp only [isNull, Array.isEmpty_eq_false_iff, ne_eq, ← Array.size_eq_zero_iff,
        size_pixelBytes] at hnull ⊢
      rwa [h.bytes_size, pixelCount, dimensions, Dimensions.pixels] at hnull

theorem WellFormed.setByte (h : image.WellFormed) (index : Nat) (value : UInt8) :
    (image.setByte index value).WellFormed := by
  by_cases hnull : image.isNull
  · rw [h.eq_null hnull]
    exact wellFormed_null
  · exact h.of_frame (Bool.eq_false_iff.mpr hnull) rfl rfl rfl Array.size_setIfInBounds

theorem copy_eq_copied (image : Image) (rect : Option Rect) :
    image.copy rect
      = if image.isNull then null
        else if (Rect.copied image.dimensions rect).isEmpty then null
        else if Rect.copied image.dimensions rect = Rect.ofDimensions image.dimensions then image
        else image.part (Rect.copied image.dimensions rect) := by
  cases rect <;> rfl

theorem WellFormed.copy (h : image.WellFormed) (rect : Option Rect) :
    (image.copy rect).WellFormed := by
  rw [copy_eq_copied]
  repeat' split
  · exact wellFormed_null
  · exact wellFormed_null
  · exact h
  · exact wellFormed_ofPixels _ _ _ _

theorem WellFormed.rotate (h : image.WellFormed) (rotation : Rotation) :
    (image.rotate rotation).WellFormed := by
  unfold Image.rotate
  split
  · exact h
  · exact wellFormed_ofPixels _ _ _ _

theorem WellFormed.flip (h : image.WellFormed) (axis : Flip) : (image.flip axis).WellFormed :=
  h.mapPixels _

theorem WellFormed.upright? (h : image.WellFormed) (orientation : UInt16) {new : Image}
    (hnew : image.upright? orientation = some new) : new.WellFormed := by
  unfold Image.upright? at hnew
  repeat' split at hnew
  all_goals simp only [Option.some.injEq, reduceCtorEq] at hnew
  all_goals subst hnew
  · exact h.flip _
  · exact h.rotate _
  · exact h.flip _
  · exact (h.rotate _).flip _
  · exact h.rotate _
  · exact (h.rotate _).flip _
  · exact h.rotate _

theorem WellFormed.convertDepth (h : image.WellFormed) (depth : Depth) :
    (image.convertDepth depth).WellFormed := by
  unfold Image.convertDepth
  split
  · exact h
  · exact wellFormed_ofPixels _ _ _ _

theorem WellFormed.removeAlpha (h : image.WellFormed) (background : Color) :
    (image.removeAlpha background).WellFormed := by
  unfold Image.removeAlpha
  split
  · exact h
  · rename_i halpha
    rw [not_or, Bool.not_eq_true] at halpha
    refine (h.mapPixels _).withoutAlpha ?_
    rw [isNull_mapPixels h]
    exact halpha.1

theorem WellFormed.resize (h : image.WellFormed) (d : Dimensions) :
    (image.resize d).WellFormed := by
  unfold Image.resize
  repeat' split
  · exact wellFormed_null
  · exact h
  · exact wellFormed_ofPixels _ _ _ _

theorem WellFormed.place (h : image.WellFormed) (join : Pixel → Pixel → Pixel)
    {source new : Image} {rect : Rect} {corner : Point}
    (hnew : Image.place join image source rect corner = .ok new) : new.WellFormed := by
  unfold Image.place at hnew
  repeat' split at hnew
  · cases hnew
  · cases hnew
    exact h
  · cases hnew
    exact h.mapPixels _

theorem WellFormed.blit (h : image.WellFormed) {source new : Image} {rect : Rect} {corner : Point}
    (hnew : image.blit source rect corner = .ok new) : new.WellFormed :=
  h.place (fun upper _ => upper) hnew

theorem WellFormed.blend (h : image.WellFormed) {source new : Image} {rect : Rect} {corner : Point}
    (hnew : image.blend source rect corner = .ok new) : new.WellFormed :=
  h.place (Pixel.layered image.depth.maxValue) hnew

end Operations

/-! ## Edits -/

def Edit.WellFormed : Edit → Prop
  | load new => new.WellFormed
  | copyFrom source _ => source.WellFormed
  | _ => True

theorem WellFormed.toOption_getD {image : Image} (h : image.WellFormed)
    {result : Except FilterError Image} (hresult : ∀ new, result = .ok new → new.WellFormed) :
    (result.toOption.getD image).WellFormed := by
  cases result with
  | error e => exact h
  | ok new => exact hresult new rfl

theorem Edit.wellFormed_result {image : Image} {e : Edit} (h : image.WellFormed)
    (he : e.WellFormed) : (e.result image).WellFormed := by
  cases e <;> rw [result]
  case load new =>
    rw [Edit.WellFormed] at he
    exact he
  case copyFrom source rect =>
    rw [Edit.WellFormed] at he
    exact he.copy rect
  case crop rect => exact h.copy (some rect)
  case setPixel x y color => exact h.mapPixels _
  case fill color => exact h.mapPixels _
  case setByte index value => exact h.setByte index value
  case blit source rect corner => exact h.toOption_getD fun new hnew => h.blit hnew
  case blend source rect corner => exact h.toOption_getD fun new hnew => h.blend hnew
  case rotate rotation => exact h.rotate rotation
  case flip axis => exact h.flip axis
  case upright orientation =>
    cases hnew : image.upright? orientation with
    | none => exact h
    | some new => exact h.upright? orientation hnew
  case removeAlpha background => exact h.removeAlpha background
  case convertDepth depth => exact h.convertDepth depth
  case resize d => exact h.resize d

end Darkroom.Image
