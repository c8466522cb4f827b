import Darkroom.Proofs.Image.CheckedMoves
import Darkroom.Proofs.Image.Pixels

/-!
# What a placement shows

A rectangle of one image is placed in another one. Cutting off the start of a span moves both of its
ends by the same way, so the source stays as far ahead of the target as it was (`Span.trimStart_eq`),
and what clipping leaves are just the places that come from the span and from inside the source
(`Span.clipped_spec`). So an image that was placed on shows, where the source reaches, the pixel that
lies under it on integers without bounds, and its own pixels elsewhere (`place_spec`).
-/

namespace Darkroom

namespace Image

variable {target source : Image}

/-! ## Clipping -/

/-- Cutting off the start moves it to the first place that both images have. Neither the distance
of the two images changes by that, nor the end. -/
theorem Span.trimStart_eq (s : Span) :
    s.trimStart.target = max (max s.target 0) (s.target - s.source)
      ∧ s.trimStart.source - s.trimStart.target = s.source - s.target
      ∧ s.trimStart.target + s.trimStart.length = s.target + s.length := by
  grind [trimStart]

def Span.clipped (start corner length : Int) (sourceSize targetSize : Nat) : Span :=
  (trimStart ⟨start, corner, length⟩).trimEnd sourceSize targetSize

/-- What is left of an axis: the places of the target that come from the span and from inside the
source, each with the place of the source that it comes from. -/
theorem Span.clipped_spec (start corner length : Int) (sourceSize : Nat) {targetSize place : Nat}
    (h : place < targetSize) :
    ((0 < (clipped start corner length sourceSize targetSize).length
          ∧ (clipped start corner length sourceSize targetSize).target.toNat ≤ place
          ∧ place < (clipped start corner length sourceSize targetSize).target.toNat
            + (clipped start corner length sourceSize targetSize).length.toNat)
        ↔ (start ≤ start + place - corner ∧ start + place - corner < start + length)
          ∧ 0 ≤ start + place - corner ∧ start + place - corner < sourceSize)
      ∧ ((clipped start corner length sourceSize targetSize).target.toNat ≤ place →
        (clipped start corner length sourceSize targetSize).source.toNat
            + (place - (clipped start corner length sourceSize targetSize).target.toNat)
          = (start + place - corner).toNat) := by
  obtain ⟨hstart, hshift, hend⟩ := trimStart_eq ⟨start, corner, length⟩
  obtain ⟨hsource, htarget, -, -⟩ := trimmed ⟨start, corner, length⟩ sourceSize targetSize
  dsimp only [clipped, trimEnd] at hstart hshift hend hsource htarget ⊢
  omega

/-- The columns that clipping leaves of a placement. Columns and rows are clipped apart from each
other, by the same rule, so everything is proved of one axis. -/
def Span.columns (rect : Rect) (corner : Point) (source target : Dimensions) : Span :=
  .clipped rect.x.toInt corner.x.toInt rect.width.toInt source.width.toNat target.width.toNat

def Span.rows (rect : Rect) (corner : Point) (source target : Dimensions) : Span :=
  .clipped rect.y.toInt corner.y.toInt rect.height.toInt source.height.toNat target.height.toNat

theorem clip_eq (rect : Rect) (corner : Point) (source target : Dimensions) :
    clip rect corner source target
      = if 0 < (Span.columns rect corner source target).length
            ∧ 0 < (Span.rows rect corner source target).length then
          some
            { sourceX := (Span.columns rect corner source target).source.toNat
              sourceY := (Span.rows rect corner source target).source.toNat
              targetX := (Span.columns rect corner source target).target.toNat
              targetY := (Span.rows rect corner source target).target.toNat
              width := (Span.columns rect corner source target).length.toNat
              height := (Span.rows rect corner source target).length.toNat }
        else none :=
  rfl

/-- What a placement puts at a position of the target: the column and row of the source. They are
integers, as the corner may be left of the image or above it. -/
def under (rect : Rect) (corner : Point) (x y : Nat) : Int × Int :=
  (rect.x.toInt + x - corner.x.toInt, rect.y.toInt + y - corner.y.toInt)

/-- Whether a placed rectangle reaches a position of the target from inside the source. This is what
the overlap means, without a word about how it is found. -/
def Reaches (source : Image) (rect : Rect) (corner : Point) (x y : Nat) : Prop :=
  rect.Covers (under rect corner x y).1 (under rect corner x y).2
    ∧ source.dimensions.Holds (under rect corner x y).1 (under rect corner x y).2

instance (source : Image) (rect : Rect) (corner : Point) (x y : Nat) :
    Decidable (Reaches source rect corner x y) :=
  inferInstanceAs (Decidable (_ ∧ _))

/-- Clipping leaves the positions of the target that are reached. -/
theorem reaches_iff (rect : Rect) (corner : Point) {x y : Nat} (hx : x < target.width.toNat)
    (hy : y < target.height.toNat) :
    Reaches source rect corner x y
      ↔ ∃ region, clip rect corner source.dimensions target.dimensions = some region
        ∧ region.covers x y := by
  obtain ⟨hcolumn, -⟩ := Span.clipped_spec rect.x.toInt corner.x.toInt rect.width.toInt
    source.width.toNat hx
  obtain ⟨hrow, -⟩ := Span.clipped_spec rect.y.toInt corner.y.toInt rect.height.toInt
    source.height.toNat hy
  rw [Reaches, Rect.Covers, Dimensions.Holds, and_and_and_comm]
  dsimp only [under, dimensions]
  rw [← hcolumn, ← hrow, clip_eq, Span.columns, Span.rows]
  split
  · rename_i hpos
    simp only [Option.some.injEq, exists_eq_left', Region.covers_iff, hpos.1, hpos.2, true_and]
  · rename_i hpos
    simp only [reduceCtorEq, false_and, exists_false, iff_false]
    exact fun h => hpos ⟨h.1.1, h.2.1⟩

/-- The pixel that a region places is the one that lies under the position. -/
theorem pixelAt_of_clip {rect : Rect} {corner : Point} {region : Region} {x y : Nat}
    (hx : x < target.width.toNat) (hy : y < target.height.toNat)
    (hclip : clip rect corner source.dimensions target.dimensions = some region)
    (hcovers : region.covers x y) :
    region.pixelAt source x y
      = source.pixel (under rect corner x y).1.toNat (under rect corner x y).2.toNat := by
  obtain ⟨-, hcolumn⟩ := Span.clipped_spec rect.x.toInt corner.x.toInt rect.width.toInt
    source.width.toNat hx
  obtain ⟨-, hrow⟩ := Span.clipped_spec rect.y.toInt corner.y.toInt rect.height.toInt
    source.height.toNat hy
  rw [clip_eq] at hclip
  split at hclip
  · cases hclip
    obtain ⟨⟨hleft, -⟩, htop, -⟩ := Region.covers_iff.mp hcovers
    rw [Region.pixelAt, under]
    exact congrArg₂ source.pixel (hcolumn hleft) (hrow htop)
  · cases hclip

/-! ## Placing -/

/-- A placement shows in the frame of the target, at each position that is reached, what it makes of
the pixel of the source under it and the one that was there, and elsewhere what was there. -/
theorem place_spec (htarget : target.WellFormed) (join : Pixel → Pixel → Pixel) (rect : Rect)
    (corner : Point) (hfault : placeFault? target source = none)
    (hjoin : ∀ i j x y, (join (source.pixel i j) (target.pixel x y)).Fits target.depth) :
    ∃ new, place join target source rect corner = .ok new ∧ Keeps [] target new
      ∧ ∀ x < target.width.toNat, ∀ y < target.height.toNat,
        new.pixel x y
          = if Reaches source rect corner x y then
              join (source.pixel (under rect corner x y).1.toNat (under rect corner x y).2.toNat)
                (target.pixel x y)
            else target.pixel x y := by
  rw [place, hfault]
  dsimp only
  cases hclip : clip rect corner source.dimensions target.dimensions with
  | none =>
    refine ⟨target, rfl, .refl [] target, fun x hx y hy => ?_⟩
    have hreaches : ¬Reaches source rect corner x y := by
      rw [reaches_iff rect corner hx hy, hclip]
      rintro ⟨_, h, -⟩
      cases h
    rw [if_neg hreaches]
  | some region =>
    refine ⟨_, rfl, htarget.frame_mapPixels _, fun x hx y hy => ?_⟩
    have hreaches : Reaches source rect corner x y ↔ region.covers x y := by
      rw [reaches_iff rect corner hx hy, hclip]
      exact ⟨fun ⟨_, h, hcovers⟩ => Option.some.inj h ▸ hcovers, fun h => ⟨region, rfl, h⟩⟩
    rw [if_congr hreaches rfl rfl]
    by_cases hcovers : region.covers x y
    · rw [if_pos hcovers, ← pixelAt_of_clip hx hy hclip hcovers]
      rw [htarget.pixel_mapPixels hx hy (by rw [if_pos hcovers]; exact hjoin _ _ x y),
        if_pos hcovers]
    · rw [if_neg hcovers, htarget.pixel_mapPixels hx hy
        (by rw [if_neg hcovers]; exact fits_pixel target x y), if_neg hcovers]

theorem placeFault?_of_isNull (h : target.isNull ∨ source.isNull) :
    placeFault? target source = some .nullImage := by
  rw [placeFault?, if_pos h]

theorem placeFault?_of_notNull (htarget : target.isNull = false) (hsource : source.isNull = false) :
    placeFault? target source
      = if target.depth ≠ source.depth then
          some (.depthMismatch (UInt32.ofNat target.depth.bits) (UInt32.ofNat source.depth.bits))
        else none := by
  rw [placeFault?, if_neg]
  rw [htarget, hsource]
  decide

/-- Images with pixels and of one depth go together. -/
theorem placeFault?_eq_none (htarget : target.isNull = false) (hsource : source.isNull = false)
    (hdepth : target.depth = source.depth) : placeFault? target source = none := by
  rw [placeFault?_of_notNull htarget hsource, if_neg (not_not.mpr hdepth)]

/-- What a rectangle reaches depends on the size of the source only. -/
theorem reaches_congr {source' : Image} (h : source'.dimensions = source.dimensions) {rect : Rect}
    {corner : Point} {x y : Nat} :
    Reaches source' rect corner x y ↔ Reaches source rect corner x y := by
  rw [Reaches, Reaches, h]

/-- Where a rectangle reaches, it reaches from inside the source. -/
theorem Reaches.inside {rect : Rect} {corner : Point} {x y : Nat}
    (h : Reaches source rect corner x y) :
    (under rect corner x y).1.toNat < source.width.toNat
      ∧ (under rect corner x y).2.toNat < source.height.toNat := by
  obtain ⟨-, ⟨hx, hx'⟩, hy, hy'⟩ := h
  dsimp only [dimensions] at hx' hy'
  omega

/-- What a blit of images that go together shows. -/
theorem blit_spec (htarget : target.WellFormed) (ht : target.isNull = false)
    (hs : source.isNull = false) (hdepth : target.depth = source.depth) (rect : Rect)
    (corner : Point) :
    ∃ new, target.blit source rect corner = .ok new ∧ Keeps [] target new
      ∧ ∀ x < target.width.toNat, ∀ y < target.height.toNat,
        new.pixel x y
          = if Reaches source rect corner x y then
              source.pixel (under rect corner x y).1.toNat (under rect corner x y).2.toNat
            else target.pixel x y := by
  have hfault := placeFault?_eq_none ht hs hdepth
  exact place_spec htarget (fun upper _ => upper) rect corner hfault fun i j _ _ =>
    hdepth ▸ fits_pixel source i j

/-- A fault writes nothing. -/
theorem change_of_placeFault? {fault : FilterError} (h : placeFault? target source = some fault)
    (rect : Rect) (corner : Point) :
    target.blit source rect corner = .error fault
      ∧ (Edit.blit source rect corner).change target = (.keep, .failed fault) := by
  have hblit : target.blit source rect corner = .error fault := by
    rw [blit, place, h]
  refine ⟨hblit, ?_⟩
  rw [Edit.change, hblit]
  rfl

/-- Images that are put together have one depth. -/
theorem depth_of_blit {new : Image} {rect : Rect} {corner : Point}
    (h : target.blit source rect corner = .ok new) : target.depth = source.depth := by
  cases hfault : placeFault? target source with
  | none => exact depth_of_placeFault? hfault
  | some fault =>
    rw [(change_of_placeFault? hfault rect corner).1] at h
    cases h

/-- A rectangle of the source, copied to a place in the target, for all rectangles, places and sizes.
Null images are refused, then images of different depths, and nothing is written. Otherwise the new
image has the frame of the target. The pixel in column `x` and row `y` is the one of the source in
column `rect.x + x - corner.x` and row `rect.y + y - corner.y`, on integers without bounds, if the
rectangle covers that position and the source has it; else it is the old one. -/
theorem blit_overlap {target : Image} (htarget : target.WellFormed) (source : Image) (rect : Rect)
    (corner : Point) :
    (target.isNull ∨ source.isNull →
        target.blit source rect corner = .error .nullImage
          ∧ (Edit.blit source rect corner).change target = (.keep, .failed .nullImage))
      ∧ (target.isNull = false → source.isNull = false → target.depth ≠ source.depth →
        target.blit source rect corner
            = .error (.depthMismatch (UInt32.ofNat target.depth.bits)
              (UInt32.ofNat source.depth.bits))
          ∧ (Edit.blit source rect corner).change target
            = (.keep, .failed (.depthMismatch (UInt32.ofNat target.depth.bits)
              (UInt32.ofNat source.depth.bits))))
      ∧ (target.isNull = false → source.isNull = false → target.depth = source.depth →
        ∃ new, target.blit source rect corner = .ok new
          ∧ new.dimensions = target.dimensions ∧ new.depth = target.depth
          ∧ new.hasAlpha = target.hasAlpha ∧ new.bytes.size = target.bytes.size
          ∧ ∀ x < target.width.toNat, ∀ y < target.height.toNat,
            new.pixel x y
              = if Reaches source rect corner x y then
                  source.pixel (under rect corner x y).1.toNat (under rect corner x y).2.toNat
                else target.pixel x y) := by
  refine ⟨fun hnull => ?_, fun ht hs hdepth => ?_, fun ht hs hdepth => ?_⟩
  · exact change_of_placeFault? (placeFault?_of_isNull hnull) rect corner
  · refine change_of_placeFault? ?_ rect corner
    rw [placeFault?_of_notNull ht hs, if_pos hdepth]
  · obtain ⟨new, hnew, hkeeps, hpixel⟩ := blit_spec htarget ht hs hdepth rect corner
    exact ⟨new, hnew, hkeeps.dimensions, hkeeps.depth, hkeeps.hasAlpha, hkeeps.size, hpixel⟩

def pair : Image :=
  ⟨2, 1, .eight, true, #[1, 2, 3, 4, 5, 6, 7, 8]⟩

def triple : Image :=
  ⟨3, 1, .eight, false, #[11, 12, 13, 14, 15, 16, 17, 18, 19, 20, 21, 22]⟩

/-- A huge rectangle that begins left of the source: its first column has no pixel to place. -/
theorem blit_overlap_leftOfSource :
    pair.WellFormed ∧ pair.isNull = false ∧ triple.isNull = false ∧ pair.depth = triple.depth
      ∧ ∃ new, pair.blit triple ⟨-1, 0, 2147483647, 2147483647⟩ ⟨0, 0⟩ = .ok new
        ∧ new.dimensions = pair.dimensions
        ∧ new.pixel 0 0 = ⟨1, 2, 3, 4⟩ ∧ new.pixel 1 0 = ⟨11, 12, 13, 14⟩ := by
  have hwell : pair.WellFormed := Or.inr (by decide)
  obtain ⟨-, -, hplaced⟩ := blit_overlap hwell triple ⟨-1, 0, 2147483647, 2147483647⟩ ⟨0, 0⟩
  obtain ⟨new, hnew, hdimensions, -, -, -, hpixel⟩ := hplaced (by decide) (by decide) rfl
  refine ⟨hwell, by decide, by decide, rfl, new, hnew, hdimensions, ?_, ?_⟩
  · rw [hpixel 0 (by decide) 0 (by decide)]
    decide
  · rw [hpixel 1 (by decide) 0 (by decide)]
    decide

end Image

end Darkroom
