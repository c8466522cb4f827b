import Darkroom.Image.Words
import Darkroom.Proofs.Image.Layered

/-!
# No word overflows when images are blended

Every number that clipping comes by is a few times as large as a coordinate (`clip_eq`), every index
is smaller than the number of stored bytes (`offset_eq`), every sum of shares is at most a product
of two channel values (`mix_eq`), and what is stored is a value of the depth (`stored?_eq`). So the
blend in machine words is the blend (`blend_eq`).
-/

namespace Darkroom

namespace Image

variable {image target source : Image}

namespace Words

theorem signed?_eq {n : Int} (h : -0x8000000000000000 ≤ n ∧ n < 0x8000000000000000) :
    signed? n = some n :=
  if_pos h

theorem unsigned?_eq {n : Nat} (h : n < 0x10000000000000000) : unsigned? n = some n :=
  if_pos h

theorem ofSigned?_eq {n : Int} (h : 0 ≤ n ∧ n < 0x10000000000000000) :
    ofSigned? n = some n.toNat := by
  rw [ofSigned?, if_pos h.1, unsigned?_eq (by omega)]

/-! ## Clipping -/

/-- A span whose numbers are far from the ends of 64 bits, as those of coordinates are. Clipping
adds and subtracts them a few times, which cannot overflow then. -/
structure Small (s : Span) : Prop where
  source : -0x1000000000 ≤ s.source ∧ s.source < 0x1000000000
  target : -0x1000000000 ≤ s.target ∧ s.target < 0x1000000000
  length : -0x1000000000 ≤ s.length ∧ s.length < 0x1000000000

theorem trimStart_eq {s : Span} (h : Small s) : trimStart s = some s.trimStart := by
  obtain ⟨hsource, htarget, hlength⟩ := h
  obtain ⟨source, target, length⟩ := s
  dsimp only at hsource htarget hlength
  rw [trimStart, Span.trimStart]
  by_cases hneg : source < 0
  · simp only [hneg, if_true]
    rw [signed?_eq (by omega), signed?_eq (by omega)]
    simp only [Option.bind_eq_bind, Option.bind_some]
    split
    · rw [signed?_eq (by omega), signed?_eq (by omega)]
      rfl
    · rfl
  · simp only [hneg, if_false, Option.bind_eq_bind, Option.bind_some]
    split
    · rw [signed?_eq (by omega), signed?_eq (by omega)]
      rfl
    · rfl

theorem clipped_eq (start corner length : Int32) (sourceSize targetSize : UInt32) :
    clipped start corner length sourceSize targetSize
      = some (.clipped start.toInt corner.toInt length.toInt sourceSize.toNat
          targetSize.toNat) := by
  have hstart := Int32.le_toInt start
  have hstart' := Int32.toInt_lt start
  have hcorner := Int32.le_toInt corner
  have hcorner' := Int32.toInt_lt corner
  have hlength := Int32.le_toInt length
  have hlength' := Int32.toInt_lt length
  have hsourceSize := sourceSize.toNat_lt
  have htargetSize := targetSize.toNat_lt
  obtain ⟨htrimmed, hdistance, -⟩ := Span.trimStart_eq ⟨start.toInt, corner.toInt, length.toInt⟩
  dsimp only at htrimmed hdistance
  rw [clipped, trimStart_eq ⟨by dsimp only; omega, by dsimp only; omega, by dsimp only; omega⟩,
    Option.bind_eq_bind, Option.bind_some, trimEnd, signed?_eq (by omega), signed?_eq (by omega)]
  rfl

theorem clip_eq (rect : Rect) (corner : Point) (source target : Dimensions) :
    clip rect corner source target = some (Image.clip rect corner source target) := by
  rw [clip, clipped_eq, clipped_eq, Image.clip_eq]
  obtain ⟨hx, hx', hright, hright'⟩ := Span.trimmed
    ⟨rect.x.toInt, corner.x.toInt, rect.width.toInt⟩ source.width.toNat target.width.toNat
  obtain ⟨hy, hy', hbottom, hbottom'⟩ := Span.trimmed
    ⟨rect.y.toInt, corner.y.toInt, rect.height.toInt⟩ source.height.toNat target.height.toNat
  have hsource := source.width.toNat_lt
  have hsource' := source.height.toNat_lt
  have htarget := target.width.toNat_lt
  have htarget' := target.height.toNat_lt
  rw [← Span.clipped, ← Span.columns] at hx hx' hright hright'
  rw [← Span.clipped, ← Span.rows] at hy hy' hbottom hbottom'
  rw [← Span.columns, ← Span.rows]
  simp only [Option.bind_eq_bind, Option.bind_some]
  split
  · rename_i hpos
    obtain ⟨hwidth, hheight⟩ := hpos
    rw [ofSigned?_eq (by omega), ofSigned?_eq (by omega), ofSigned?_eq (by omega),
      ofSigned?_eq (by omega), ofSigned?_eq (by omega), ofSigned?_eq (by omega)]
    rfl
  · rfl

/-! ## Layers -/

section Layers

variable {depth : Depth} {upper lower : Pixel}

/-- A product of channel values. -/
theorem product_lt {a b : Nat} (ha : a ≤ depth.maxValue) (hb : b ≤ depth.maxValue) :
    a * b < 0x100000000 := by
  have hwhole := depth.maxValue_lt
  have hle : a * b ≤ 65535 * 65535 := Nat.mul_le_mul (by omega) (by omega)
  omega

theorem mix_eq {alpha : Nat} {u l : UInt16} (halpha : alpha ≤ depth.maxValue)
    (hu : u.toNat ≤ depth.maxValue) (hl : l.toNat ≤ depth.maxValue) :
    mix depth.maxValue alpha (depth.maxValue - alpha) u l
      = some (Pixel.mix depth.maxValue alpha u l) := by
  have hwhole := depth.maxValue_lt
  have habove := product_lt hu halpha
  have hbelow := product_lt hl (Nat.sub_le depth.maxValue alpha)
  obtain ⟨-, hhigh⟩ := Pixel.shares_between ⟨Nat.zero_le _, Nat.zero_le _⟩ ⟨hu, hl⟩ halpha
  obtain ⟨-, hle⟩ := Pixel.rounded_between depth.maxValue_pos
    (Nat.zero_mul depth.maxValue ▸ Nat.zero_le _) hhigh
  rw [mix, unsigned?_eq (by omega), unsigned?_eq (by omega)]
  simp only [Option.bind_eq_bind, Option.bind_some]
  rw [unsigned?_eq (by omega), Option.bind_some, unsigned?_eq (by omega), Option.bind_some,
    channel?, if_pos (by omega), Pixel.mix, Nat.min_eq_left halpha]

theorem layered_eq (hu : upper.Fits depth) (hl : lower.Fits depth) :
    layered depth.maxValue upper lower = some (Pixel.layered depth.maxValue upper lower) := by
  have hwhole := depth.maxValue_lt
  have halpha := hu.alpha
  have hbelow := product_lt hl.alpha (Nat.sub_le depth.maxValue upper.alpha.toNat)
  have hdiv := Nat.div_le_self
    (lower.alpha.toNat * (depth.maxValue - upper.alpha.toNat) + depth.maxValue / 2) depth.maxValue
  have hjoined := Nat.min_le_right (upper.alpha.toNat
    + (lower.alpha.toNat * (depth.maxValue - upper.alpha.toNat) + depth.maxValue / 2)
      / depth.maxValue) depth.maxValue
  rw [layered, difference?, if_pos (Nat.min_le_right _ _), Nat.min_eq_left halpha]
  simp only [Option.bind_eq_bind, Option.bind_some]
  have hblue := mix_eq halpha (hu .blue) (hl .blue)
  have hgreen := mix_eq halpha (hu .green) (hl .green)
  have hred := mix_eq halpha (hu .red) (hl .red)
  dsimp only [Pixel.component] at hblue hgreen hred
  rw [hblue, hgreen, hred, unsigned?_eq (by omega)]
  simp only [Option.bind_some]
  rw [unsigned?_eq (by omega), Option.bind_some, unsigned?_eq (by omega), Option.bind_some,
    channel?, if_pos (by omega), Pixel.layered, Nat.min_eq_left halpha]
  rfl

theorem stored?_eq {p : Pixel} (h : p.Fits depth) : stored? depth p = some p := by
  refine if_pos ?_
  simp only [List.all_cons, List.all_nil, Bool.and_true, Bool.and_eq_true, decide_eq_true_eq]
  exact ⟨h .blue, h .green, h .red, h .alpha⟩

end Layers

/-! ## Indices -/

/-- Where a pixel is stored, through sums and products that are no larger. -/
theorem offset_eq (h : image.WellFormed) {x y i j : Nat} (hx : x + i < image.width.toNat)
    (hy : y + j < image.height.toNat) :
    offset image.rowBytes image.depth.pixelBytes x y i j = some (image.offset (x + i) (y + j)) := by
  have hsize := h.size_lt
  have hfit := h.pixel_fits (index_lt hx hy)
  have hplace := rowBytes_place image (x + i) (y + j)
  have hcolumns := image.width.toNat_lt
  have hrows := image.height.toNat_lt
  simp only [offset, Option.bind_eq_bind]
  rw [unsigned?_eq (by omega), Option.bind_some, unsigned?_eq (by omega), Option.bind_some,
    unsigned?_eq (by omega), Option.bind_some, unsigned?_eq (by omega), Option.bind_some,
    unsigned?_eq (by omega), hplace]
  rfl

theorem rowBytes_eq (image : Image) :
    unsigned? (image.width.toNat * image.depth.pixelBytes) = some image.rowBytes := by
  have hcolumns := image.width.toNat_lt
  refine unsigned?_eq ?_
  cases image.depth <;> simp only [Depth.pixelBytes] <;> omega

/-! ## Blending -/

/-- A loop whose steps are the same. -/
theorem foldlM_congr {α ι : Type} {step step' : α → ι → Option α} {items : List ι}
    (h : ∀ a, ∀ i ∈ items, step a i = step' a i) (a : α) :
    items.foldlM step a = items.foldlM step' a := by
  induction items generalizing a with
  | nil => rfl
  | cons i items ih =>
    rw [List.foldlM_cons, List.foldlM_cons, h a i List.mem_cons_self]
    exact congrArg _ (funext fun a => ih (fun a j hj => h a j (List.mem_cons_of_mem _ hj)) a)

theorem positions_eq (x y width height : Nat) :
    positions x y width height
      = (positions 0 0 width height).map fun p => (x + p.1, y + p.2) := by
  simp [positions, List.map_flatMap, Function.comp_def]

theorem fits_of_pixel? {depth : Depth} {bytes : Array UInt8} {start : Nat} {p : Pixel}
    (h : Bytes.pixel? depth bytes start = some p) : p.Fits depth := by
  rw [Bytes.pixel?, Option.map_eq_some_iff] at h
  obtain ⟨part, -, rfl⟩ := h
  exact Pixel.fits_read depth part 0

/-- One step of the loop, with every number in its word. -/
theorem blendPixel_eq (htarget : target.WellFormed) (hsource : source.WellFormed)
    (hdepth : target.depth = source.depth) {region : Region}
    (hregion : region.Inside source.dimensions target.dimensions) {bytes : Array UInt8} {i j : Nat}
    (hi : i < region.width) (hj : j < region.height) :
    blendPixel target source region source.rowBytes target.rowBytes bytes i j
      = (do
        let lower ← Bytes.pixel? target.depth bytes
          (target.offset (region.targetX + i) (region.targetY + j))
        Bytes.putPixel? target.depth bytes
          (target.offset (region.targetX + i) (region.targetY + j))
          (Pixel.layered target.depth.maxValue
            (source.pixel (region.sourceX + i) (region.sourceY + j)) lower)) := by
  obtain ⟨hsx, hsy, htx, hty⟩ := hregion
  dsimp only [dimensions] at hsx hsy htx hty
  have hstart := offset_eq hsource (x := region.sourceX) (y := region.sourceY) (i := i) (j := j)
    (by omega) (by omega)
  have hplace := offset_eq htarget (x := region.targetX) (y := region.targetY) (i := i) (j := j)
    (by omega) (by omega)
  have hupper := Checked.pixel_eq hsource (x := region.sourceX + i) (y := region.sourceY + j)
    (by omega) (by omega)
  rw [Checked.pixel, ← hdepth] at hupper
  rw [← hdepth] at hstart
  simp only [blendPixel, hstart, hplace, hupper, Option.bind_eq_bind, Option.bind_some]
  cases hlower : Bytes.pixel? target.depth bytes
      (target.offset (region.targetX + i) (region.targetY + j)) with
  | none => rfl
  | some lower =>
    have hu : (source.pixel (region.sourceX + i) (region.sourceY + j)).Fits target.depth :=
      hdepth ▸ fits_pixel source _ _
    have hl := fits_of_pixel? hlower
    simp only [Option.bind_some, layered_eq hu hl, stored?_eq (Pixel.fits_layered hu hl)]

theorem blendRegion_eq (htarget : target.WellFormed) (hsource : source.WellFormed)
    (hdepth : target.depth = source.depth) {region : Region}
    (hregion : region.Inside source.dimensions target.dimensions) :
    blendRegion target source region = Checked.blendRegion target source region := by
  have hsx := hregion.sourceX
  have hsy := hregion.sourceY
  dsimp only [dimensions] at hsx hsy
  rw [blendRegion, rowBytes_eq, rowBytes_eq, Checked.blendRegion, Checked.changeAt,
    positions_eq region.targetX, List.foldlM_map]
  refine congrArg (Checked.withBytes target) (foldlM_congr ?_ _)
  rintro bytes ⟨i, j⟩ hmem
  rw [Checked.mem_positions] at hmem
  have hupper := Checked.pixel_eq hsource (x := region.sourceX + i) (y := region.sourceY + j)
    (by omega) (by omega)
  rw [blendPixel_eq htarget hsource hdepth hregion (by omega) (by omega)]
  simp only [Nat.add_sub_cancel_left, hupper, Option.bind_eq_bind, Option.bind_some]

/-- The blend in machine words is the blend. -/
theorem blend_eq (htarget : target.WellFormed) (hsource : source.WellFormed) (rect : Rect)
    (corner : Point) :
    blend target source rect corner = some (target.blend source rect corner) := by
  rw [← Checked.blend_eq htarget hsource rect corner, blend, Checked.blend, Checked.place]
  cases hfault : placeFault? target source with
  | some fault => rfl
  | none =>
    have hdepth := depth_of_placeFault? hfault
    rw [clip_eq]
    cases hclip : Image.clip rect corner source.dimensions target.dimensions with
    | none => rfl
    | some region =>
      have hregion := blendRegion_eq htarget hsource hdepth (inside_of_clip hclip)
      exact congrArg (Option.map Except.ok) hregion

end Words

/-! ## Blits and blends -/

def placed (source : Image) (rect : Rect) (corner : Point) (x y : Nat) : Pixel :=
  source.pixel (under rect corner x y).1.toNat (under rect corner x y).2.toNat

/-- A blend next to a blit of the same rectangle to the same place. Both keep the frame and all pixels that
the rectangle does not reach. Elsewhere the blit shows the pixel that is placed, and the blend a pixel
between it and the old one, with at least the alpha of each: the placed pixel where that has full
alpha, the old one where that has none. So placed pixels of full alpha are copied, and placed pixels
without alpha change nothing. -/
structure BlendsOver (target source : Image) (rect : Rect) (corner : Point)
    (blitted blended : Image) : Prop where
  keepsBlitted : Keeps [] target blitted
  keepsBlended : Keeps [] target blended
  apart : ∀ x < target.width.toNat, ∀ y < target.height.toNat, ¬Reaches source rect corner x y →
    blitted.pixel x y = target.pixel x y ∧ blended.pixel x y = target.pixel x y
  reached : ∀ x < target.width.toNat, ∀ y < target.height.toNat, Reaches source rect corner x y →
    blitted.pixel x y = placed source rect corner x y
      ∧ Pixel.LaidOver target.depth (placed source rect corner x y) (target.pixel x y)
        (blended.pixel x y)
  ofFull : (∀ x < target.width.toNat, ∀ y < target.height.toNat, Reaches source rect corner x y →
    (placed source rect corner x y).alpha.toNat = target.depth.maxValue) → blended = blitted
  ofClear : (∀ x < target.width.toNat, ∀ y < target.height.toNat, Reaches source rect corner x y →
    (placed source rect corner x y).alpha.toNat = 0) → blended = target

theorem exists_blendsOver {target source : Image} (htarget : target.WellFormed)
    (ht : target.isNull = false) (hs : source.isNull = false) (hdepth : target.depth = source.depth)
    (rect : Rect) (corner : Point) :
    ∃ blitted blended, target.blit source rect corner = .ok blitted
      ∧ target.blend source rect corner = .ok blended
      ∧ BlendsOver target source rect corner blitted blended := by
  obtain ⟨blitted, hblitted, hkeeps, hpixel⟩ := blit_spec htarget ht hs hdepth rect corner
  obtain ⟨blended, hblended, hkeeps', hpixel'⟩ := blend_spec htarget ht hs hdepth rect corner
  have hapart : ∀ x < target.width.toNat, ∀ y < target.height.toNat,
      ¬Reaches source rect corner x y →
      blitted.pixel x y = target.pixel x y ∧ blended.pixel x y = target.pixel x y := by
    intro x hx y hy hreaches
    rw [hpixel x hx y hy, hpixel' x hx y hy, if_neg hreaches, if_neg hreaches]
    exact ⟨rfl, rfl⟩
  have hplaced : ∀ x < target.width.toNat, ∀ y < target.height.toNat,
      Reaches source rect corner x y →
      blitted.pixel x y = placed source rect corner x y
        ∧ Pixel.LaidOver target.depth (placed source rect corner x y) (target.pixel x y)
          (blended.pixel x y) := by
    intro x hx y hy hreaches
    have hu : (placed source rect corner x y).Fits target.depth := hdepth ▸ fits_pixel source _ _
    rw [hpixel x hx y hy, hpixel' x hx y hy, if_pos hreaches, if_pos hreaches]
    exact ⟨rfl, Pixel.laidOver_layered hu (fits_pixel target x y)⟩
  have hwell := htarget.blend hblended
  refine ⟨blitted, blended, hblitted, hblended, hkeeps, hkeeps', hapart, hplaced,
    fun hfull => ?_, fun hclear => ?_⟩
  · refine hkeeps'.ext_pixels hkeeps hwell (htarget.blit hblitted) fun x hx y hy => ?_
    by_cases hreaches : Reaches source rect corner x y
    · obtain ⟨hblit, hover⟩ := hplaced x hx y hy hreaches
      rw [hblit, hover.full (hfull x hx y hy hreaches)]
    · obtain ⟨hblit, hblend⟩ := hapart x hx y hy hreaches
      rw [hblit, hblend]
  · refine hkeeps'.ext_pixels (.refl [] target) hwell htarget fun x hx y hy => ?_
    by_cases hreaches : Reaches source rect corner x y
    · exact (hplaced x hx y hy hreaches).2.clear (hclear x hx y hy hreaches)
    · exact (hapart x hx y hy hreaches).2

/-- Blends and blits of images of one depth: no number leaves its word, null images are refused by both,
and otherwise both give an image, of which `BlendsOver` tells the pixels. -/
theorem blending_laws {target source : Image} (htarget : target.WellFormed)
    (hsource : source.WellFormed) (hdepth : target.depth = source.depth) (rect : Rect)
    (corner : Point) :
    Words.blend target source rect corner = some (target.blend source rect corner)
      ∧ Checked.blit target source rect corner = some (target.blit source rect corner)
      ∧ (target.isNull ∨ source.isNull →
        target.blit source rect corner = .error .nullImage
          ∧ target.blend source rect corner = .error .nullImage)
      ∧ (target.isNull = false → source.isNull = false →
        ∃ blitted blended, target.blit source rect corner = .ok blitted
          ∧ target.blend source rect corner = .ok blended
          ∧ BlendsOver target source rect corner blitted blended) := by
  refine ⟨Words.blend_eq htarget hsource rect corner, Checked.blit_eq htarget hsource rect corner,
    fun hnull => ?_, fun ht hs => exists_blendsOver htarget ht hs hdepth rect corner⟩
  have hfault := placeFault?_of_isNull hnull
  refine ⟨(change_of_placeFault? hfault rect corner).1, ?_⟩
  rw [blend, place, hfault]

/-- A rectangle that begins left of the source: the first pixel is not reached, the second one gets
at least the alpha of both. -/
theorem blending_laws_pair :
    pair.WellFormed ∧ triple.WellFormed ∧ pair.depth = triple.depth ∧ pair.isNull = false
      ∧ triple.isNull = false
      ∧ ∃ blended, Words.blend pair triple ⟨-1, 0, 2147483647, 1⟩ ⟨0, 0⟩ = some (.ok blended)
        ∧ blended.pixel 0 0 = ⟨1, 2, 3, 4⟩
        ∧ 14 ≤ (blended.pixel 1 0).alpha.toNat
        ∧ 5 ≤ (blended.pixel 1 0).blue.toNat ∧ (blended.pixel 1 0).blue.toNat ≤ 11 := by
  have hpair : pair.WellFormed := Or.inr (by decide)
  have htriple : triple.WellFormed := Or.inr (by decide)
  obtain ⟨hwords, -, -, hlaws⟩ :=
    blending_laws hpair htriple rfl ⟨-1, 0, 2147483647, 1⟩ ⟨0, 0⟩
  obtain ⟨_, blended, -, hblended, hover⟩ := hlaws rfl rfl
  obtain ⟨-, hlaid⟩ := hover.reached 1 (by decide) 0 (by decide) (by decide)
  refine ⟨hpair, htriple, rfl, rfl, rfl, blended, hblended ▸ hwords, ?_, hlaid.upperAlpha,
    hlaid.color .blue (by decide)⟩
  exact (hover.apart 0 (by decide) 0 (by decide) (by decide)).2

end Image

end Darkroom
