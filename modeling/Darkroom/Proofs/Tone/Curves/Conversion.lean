import Darkroom.Proofs.Image.Depth
import Darkroom.Proofs.Tone.Curves.Settings
import Darkroom.Tone.Curves.Checked

/-!
# Control points at the other depth

At the other depth a smooth curve starts out as the linear one, and the points of its slots are copied one
by one (`Curve.Checked.copyPointsFrom_slotPoints`). Empty slots are passed over, so they stay as the linear
curve has them: an empty first or last slot becomes an end point, the other ones stay empty
(`Curve.point_converted_of_empty`, `Curve.point_converted_of_knot`). To 16 bits and back the control points
are all there again, and with them come the end points that were not (`Curves.points_converted`).
-/

namespace Darkroom

variable {source target : Depth}

namespace Curve

variable {c : Curve}

/-! ## Coordinates -/

/-- A coordinate at the other depth: 257 times as large, or divided by 257 to the nearest. -/
def scaledLevel (target : Depth) (n : ℤ) : ℤ :=
  match target with
  | .eight => (n + 128) / 257
  | .sixteen => n * 257

theorem toNat_scaled {v : UInt16} (h : v.toNat ≤ source.maxValue) (hother : source ≠ target) :
    ((scaled target v).toNat : ℤ) = scaledLevel target v.toNat := by
  cases target with
  | eight =>
    rw [scaled, toNat_downscale, scaledLevel]
    omega
  | sixteen =>
    cases source with
    | eight =>
      rw [scaled, toNat_upscale h, scaledLevel]
      omega
    | sixteen => exact absurd rfl hother

def scaledKnot (target : Depth) (k : Knot) : Knot :=
  ⟨scaled target k.x, scaled target k.y⟩

theorem fits_scaledKnot (target : Depth) (k : Knot) : (scaledKnot target k).fits target :=
  ⟨toNat_scaled_le target k.x, toNat_scaled_le target k.y⟩

/-- What a slot holds after that of another curve was copied to it. An empty slot is not copied, so
what the new curve had there stays. -/
def copiedSlot (target : Depth) (slot fallback : Option Knot) : Option Knot :=
  match slot with
  | some k => some (scaledKnot target k)
  | none => fallback

theorem rescaled_of_smooth (hsmooth : c.kind = .smooth) : c.rescaled target = { linear target with
    kind := c.kind
    slots := List.zipWith (copiedSlot target) c.slots (linear target).slots } := by
  unfold rescaled
  simp only [hsmooth]
  rfl

namespace Checked

theorem coordinateAt_level (target : Depth) (v : UInt16) :
    coordinateAt target v.toUInt32.toInt32 = (scaled target v).toUInt32.toInt32 := by
  have hv := v.toNat_lt
  rw [coordinateAt, Knot.toInt_toInt32_level, if_pos (by omega), Int.toNat_natCast,
    UInt16.ofNat_toNat]

/-! ## Copies of slots -/

theorem copyPoint_none (target : Depth) (c : Curve) (slot : ℕ) :
    copyPoint target c slot (slotPoint none) = c :=
  if_neg (by decide)

theorem copyPoint_some (target : Depth) (c : Curve) (slot : ℕ) (k : Knot) :
    copyPoint target c slot (slotPoint (some k))
      = { c with slots := c.slots.set slot (some (scaledKnot target k)) } := by
  have hx : -1 < k.point.x := by
    rw [Int32.lt_iff_toInt_lt, Knot.point, Knot.toInt_toInt32_level]
    exact lt_of_lt_of_le (by decide) (Int.natCast_nonneg _)
  have hy : -1 < k.point.y := by
    rw [Int32.lt_iff_toInt_lt, Knot.point, Knot.toInt_toInt32_level]
    exact lt_of_lt_of_le (by decide) (Int.natCast_nonneg _)
  have hscaled : (⟨coordinateAt target k.point.x, coordinateAt target k.point.y⟩ : Point)
      = slotPoint (some (scaledKnot target k)) := by
    simp only [Knot.point, coordinateAt_level, slotPoint, scaledKnot]
  rw [copyPoint, slotPoint, if_pos ⟨hx, hy⟩, hscaled]
  exact setPoint_slotPoint (fun k' hk' => Option.some.inj hk' ▸ fits_scaledKnot target k) slot

theorem copyPoint_slotPoint {before old : List (Option Knot)} {fallback : Option Knot}
    (hslots : c.slots = before ++ fallback :: old) (slot : Option Knot) :
    copyPoint target c before.length (slotPoint slot)
      = { c with slots := before ++ copiedSlot target slot fallback :: old } := by
  cases slot with
  | none => rw [copyPoint_none, copiedSlot, ← hslots]
  | some k =>
    rw [copyPoint_some, copiedSlot, hslots, List.set_append_right _ _ le_rfl, Nat.sub_self,
      List.set_cons_zero]

/-- Copying the points of slots one by one fills the slots that they come to, but for the empty ones. -/
theorem copyPointsFrom_slotPoints {before old slots : List (Option Knot)}
    (hlength : old.length = slots.length) (hslots : c.slots = before ++ old) :
    copyPointsFrom target c before.length (slots.map slotPoint)
      = { c with slots := before ++ List.zipWith (copiedSlot target) slots old } := by
  induction slots generalizing before old c with
  | nil =>
    obtain rfl := List.eq_nil_of_length_eq_zero hlength
    rw [List.zipWith_nil_left, ← hslots]
    rfl
  | cons slot slots ih =>
    cases old with
    | nil => cases hlength
    | cons fallback old =>
      have hstep : before ++ copiedSlot target slot fallback :: old
          = (before ++ [copiedSlot target slot fallback]) ++ old := by
        rw [List.append_assoc, List.singleton_append]
      have hrest : copyPointsFrom target
          { c with slots := before ++ copiedSlot target slot fallback :: old }
          (before ++ [copiedSlot target slot fallback]).length (slots.map slotPoint)
          = { c with slots := (before ++ [copiedSlot target slot fallback])
              ++ List.zipWith (copiedSlot target) slots old } := ih (Nat.succ.inj hlength) hstep
      rw [List.length_append, List.length_singleton, List.append_assoc,
        List.singleton_append] at hrest
      rw [List.map_cons, copyPointsFrom, copyPoint_slotPoint hslots]
      exact hrest

/-- A smooth curve at the other depth is the linear one, to which the points were copied, drawn anew. -/
theorem converted_eq_copied (h : c.WellFormed source) (hsmooth : c.kind = .smooth)
    (hother : source ≠ target) : c.converted source target
      = (copyPointsFrom target (linear target) 0 c.points).calculate target := by
  obtain ⟨-, hslots⟩ := wellFormed_iff.mp h
  have hcopied : copyPointsFrom target (linear target) ([] : List (Option Knot)).length c.points
      = { linear target with
          slots := [] ++ List.zipWith (copiedSlot target) c.slots (linear target).slots } :=
    copyPointsFrom_slotPoints hslots.1.symm rfl
  have hrescaled : c.rescaled target = copyPointsFrom target (linear target) 0 c.points := by
    rw [rescaled_of_smooth hsmooth, hsmooth]
    exact hcopied.symm
  rw [Curve.converted, if_neg hother, hrescaled]

end Checked

/-! ## Points at the other depth -/

/-- The linear curve has its end points and nothing between. -/
theorem point_linear (depth : Depth) (i : ℕ) : (linear depth).point i =
    if i = 0 then ⟨0, 0⟩
    else if i = slotCount - 1 then ⟨Int32.ofNat depth.maxValue, Int32.ofNat depth.maxValue⟩
    else emptyPoint := by
  rcases Nat.lt_or_ge i slotCount with hi | hi
  · have hall : ∀ i < slotCount, (linear depth).point i =
        if i = 0 then ⟨0, 0⟩
        else if i = slotCount - 1 then ⟨Int32.ofNat depth.maxValue, Int32.ofNat depth.maxValue⟩
        else emptyPoint := by
      cases depth <;> decide
    exact hall i hi
  · have hnone : (linear depth).slots[i]? = none := List.getElem?_eq_none hi
    have hlast : i ≠ slotCount - 1 := fun h => absurd hi (by rw [h]; decide)
    rw [point, hnone, if_neg (Nat.ne_of_gt (lt_of_lt_of_le (by decide) hi)), if_neg hlast]
    rfl

theorem slots_converted (hsmooth : c.kind = .smooth) (hother : source ≠ target) :
    (c.converted source target).slots
      = List.zipWith (copiedSlot target) c.slots (linear target).slots := by
  rw [← Tracing.converted_catmullRom, Tracing.converted, if_neg hother, Tracing.slots_calculate,
    rescaled_of_smooth hsmooth]

theorem kind_converted (hsmooth : c.kind = .smooth) (hother : source ≠ target) :
    (c.converted source target).kind = .smooth := by
  rw [← Tracing.converted_catmullRom, Tracing.converted, if_neg hother, Tracing.kind_calculate,
    rescaled_of_smooth hsmooth, hsmooth]

/-- An empty slot takes what the linear curve has there. -/
theorem point_converted_of_empty (h : c.WellFormed source) (hsmooth : c.kind = .smooth)
    (hother : source ≠ target) {i : ℕ} (hi : c.point i = emptyPoint) :
    (c.converted source target).point i = (linear target).point i := by
  obtain ⟨-, hslots⟩ := wellFormed_iff.mp h
  rw [point, point, slots_converted hsmooth hother, List.getElem?_zipWith]
  rcases c.empty_or_knot i with ⟨hslot, -⟩ | ⟨k, -, hk⟩
  · cases hat : c.slots[i]? with
    | none =>
      have hout : slotCount ≤ i := by
        rw [← hslots.1]
        exact List.getElem?_eq_none_iff.mp hat
      have hlinear : (linear target).slots[i]? = none := List.getElem?_eq_none hout
      rw [hlinear]
    | some slot =>
      rw [hat] at hslot
      obtain rfl : slot = none := hslot
      cases (linear target).slots[i]? <;> rfl
  · exact absurd (congrArg Point.x (hk.symm.trans hi)) k.point_x_ne

/-- The point of a slot that is in use is scaled. -/
theorem point_converted_of_knot (h : c.WellFormed source) (hsmooth : c.kind = .smooth)
    (hother : source ≠ target) {i : ℕ} (hi : c.point i ≠ emptyPoint) :
    (c.converted source target).point i ≠ emptyPoint ∧
      ((c.converted source target).point i).x.toInt = scaledLevel target (c.point i).x.toInt ∧
      ((c.converted source target).point i).y.toInt = scaledLevel target (c.point i).y.toInt := by
  obtain ⟨-, hslots⟩ := wellFormed_iff.mp h
  rcases c.empty_or_knot i with ⟨-, hempty⟩ | ⟨k, hslot, hk⟩
  · exact absurd hempty hi
  · have hin : i < (linear target).slots.length := by
      have hlt := (List.getElem?_eq_some_iff.mp hslot).1
      rwa [hslots.1] at hlt
    have hpoint : (c.converted source target).point i = (scaledKnot target k).point := by
      rw [point, slots_converted hsmooth hother, List.getElem?_zipWith, hslot,
        List.getElem?_eq_getElem hin]
      rfl
    obtain ⟨hx, hy⟩ := hslots.2 k (List.mem_of_getElem? hslot)
    rw [hpoint, hk]
    refine ⟨fun hempty => (scaledKnot target k).point_x_ne (congrArg Point.x hempty), ?_, ?_⟩
    · simp only [Knot.point, Knot.toInt_toInt32_level]
      exact toNat_scaled hx hother
    · simp only [Knot.point, Knot.toInt_toInt32_level]
      exact toNat_scaled hy hother

theorem getElem?_points (c : Curve) (i : ℕ) :
    c.points[i]? = if i < c.slots.length then some (c.point i) else none := by
  rw [points, List.getElem?_map, point]
  split
  · rename_i hi
    rw [List.getElem?_eq_getElem hi]
    rfl
  · rename_i hi
    rw [List.getElem?_eq_none (not_lt.mp hi)]
    rfl

theorem eq_of_toInt {p q : Point} (hx : p.x.toInt = q.x.toInt) (hy : p.y.toInt = q.y.toInt) :
    p = q := by
  cases p
  cases q
  exact congrArg₂ Point.mk (Int32.toInt_inj.mp hx) (Int32.toInt_inj.mp hy)

theorem scaledLevel_scaledLevel (n : ℤ) : scaledLevel .eight (scaledLevel .sixteen n) = n := by
  simp only [scaledLevel]
  omega

/-- To 16 bits and back a point is what it was; an empty slot takes what the linear curve has there. -/
theorem point_back (h : c.WellFormed .eight) (hsmooth : c.kind = .smooth) (i : ℕ) :
    ((c.converted .eight .sixteen).converted .sixteen .eight).point i
      = if c.point i ≠ emptyPoint then c.point i else (linear .eight).point i := by
  have hup : Depth.eight ≠ .sixteen := by decide
  have hmiddle := h.converted .sixteen
  have hkind : (c.converted .eight .sixteen).kind = .smooth := kind_converted hsmooth hup
  -- A point of the middle curve that is the scaled one of a point comes back as that point.
  have hcomes : ∀ p : Point, (c.converted .eight .sixteen).point i ≠ emptyPoint →
      ((c.converted .eight .sixteen).point i).x.toInt = scaledLevel .sixteen p.x.toInt →
      ((c.converted .eight .sixteen).point i).y.toInt = scaledLevel .sixteen p.y.toInt →
      ((c.converted .eight .sixteen).converted .sixteen .eight).point i = p := by
    intro p hne hx hy
    obtain ⟨-, hbackX, hbackY⟩ := point_converted_of_knot hmiddle hkind hup.symm hne
    rw [hx, scaledLevel_scaledLevel] at hbackX
    rw [hy, scaledLevel_scaledLevel] at hbackY
    exact eq_of_toInt hbackX hbackY
  by_cases hi : c.point i = emptyPoint
  · have hthere := point_converted_of_empty h hsmooth hup hi
    rw [if_neg (not_not.mpr hi)]
    by_cases hend : i = 0 ∨ i = slotCount - 1
    · refine hcomes _ ?_ ?_ ?_ <;> rw [hthere] <;> rcases hend with rfl | rfl <;> decide
    · refine point_converted_of_empty hmiddle hkind hup.symm ?_
      rw [hthere, point_linear, if_neg (not_or.mp hend).1, if_neg (not_or.mp hend).2]
  · obtain ⟨hne, hx, hy⟩ := point_converted_of_knot h hsmooth hup hi
    rw [if_pos hi]
    exact hcomes _ hne hx hy

/-- Going to 16 bits and back restores the points exactly if both ends are in use. -/
theorem points_back_iff (h : c.WellFormed .eight) (hsmooth : c.kind = .smooth) :
    ((c.converted .eight .sixteen).converted .sixteen .eight).points = c.points ↔
      c.point 0 ≠ emptyPoint ∧ c.point (slotCount - 1) ≠ emptyPoint := by
  have hlength : c.slots.length = slotCount := (wellFormed_iff.mp h).2.1
  have hback : ((c.converted .eight .sixteen).converted .sixteen .eight).slots.length = slotCount :=
    (wellFormed_iff.mp ((h.converted .sixteen).converted .eight)).2.1
  constructor
  · intro hsame
    have hat : ∀ i < slotCount, ((c.converted .eight .sixteen).converted .sixteen .eight).point i
        = c.point i := fun i hi => by
      have hpoints := congrArg (·[i]?) hsame
      simpa only [getElem?_points, hback, hlength, if_pos hi, Option.some.injEq] using hpoints
    have hends : ∀ i < slotCount, (linear .eight).point i ≠ emptyPoint → c.point i ≠ emptyPoint := by
      intro i hi hend hempty
      have hpoint := hat i hi
      rw [point_back h hsmooth, if_neg (not_not.mpr hempty)] at hpoint
      exact hend (hpoint.trans hempty)
    exact ⟨hends 0 (by decide) (by decide), hends (slotCount - 1) (by decide) (by decide)⟩
  · rintro ⟨hfirst, hlast⟩
    refine List.ext_getElem? fun i => ?_
    rw [getElem?_points, getElem?_points, hback, hlength, point_back h hsmooth]
    by_cases hi : c.point i = emptyPoint
    · have hne : ∀ j, c.point j ≠ emptyPoint → i ≠ j := fun j hj hij => hj (hij ▸ hi)
      rw [if_neg (not_not.mpr hi), point_linear, if_neg (hne _ hfirst), if_neg (hne _ hlast), hi]
    · rw [if_pos hi]

end Curve

namespace Curves

open Curve (emptyPoint slotCount scaledLevel)

/-- At the other depth a smooth curve is the linear one to which the points were copied. Every point is
scaled; an empty first or last slot becomes an end point, and no other empty slot is filled. So to 16 bits
and back the points are what they were, but that the first and the last slot are in use then; they are all
restored exactly if these were in use before. -/
theorem points_converted {c : Curves} (h : c.WellFormed) {target : Depth} (hother : c.depth ≠ target)
    {channel : Channel} (hsmooth : (c.channels.get channel).kind = .smooth) :
    let before := c.channels.get channel
    let after := (c.converted target).channels.get channel
    let back := ((c.converted .sixteen).converted .eight).channels.get channel
    after = (Curve.Checked.copyPointsFrom target (Curve.linear target) 0 before.points).calculate
      target ∧
    (∀ i, before.point i ≠ emptyPoint → after.point i ≠ emptyPoint ∧
      (after.point i).x.toInt = scaledLevel target (before.point i).x.toInt ∧
      (after.point i).y.toInt = scaledLevel target (before.point i).y.toInt) ∧
    (∀ i, before.point i = emptyPoint → after.point i =
      if i = 0 then ⟨0, 0⟩
      else if i = slotCount - 1 then ⟨Int32.ofNat target.maxValue, Int32.ofNat target.maxValue⟩
      else emptyPoint) ∧
    (c.depth = .eight →
      (∀ i, back.point i = if before.point i ≠ emptyPoint then before.point i
        else if i = 0 then ⟨0, 0⟩
        else if i = slotCount - 1 then ⟨255, 255⟩
        else emptyPoint) ∧
      (back.points = before.points ↔
        before.point 0 ≠ emptyPoint ∧ before.point (slotCount - 1) ≠ emptyPoint)) := by
  intro before after back
  have hbefore : before.WellFormed c.depth := h channel
  have hafter : after = before.converted c.depth target := PerChannel.get_map ..
  refine ⟨?_, fun i hi => ?_, fun i hi => ?_, fun hdepth => ?_⟩
  · rw [hafter]
    exact Curve.Checked.converted_eq_copied hbefore hsmooth hother
  · rw [hafter]
    exact Curve.point_converted_of_knot hbefore hsmooth hother hi
  · rw [hafter, Curve.point_converted_of_empty hbefore hsmooth hother hi, Curve.point_linear]
  · have hback : back = (before.converted .eight .sixteen).converted .sixteen .eight := by
      have hmiddle : (c.converted .sixteen).channels.get channel
          = before.converted c.depth .sixteen := PerChannel.get_map ..
      have hlast : back = ((c.converted .sixteen).channels.get channel).converted .sixteen .eight :=
        PerChannel.get_map ..
      rw [hlast, hmiddle, hdepth]
    rw [hdepth] at hbefore
    rw [hback]
    refine ⟨fun i => ?_, Curve.points_back_iff hbefore hsmooth⟩
    rw [Curve.point_back hbefore hsmooth, Curve.point_linear]
    rfl

/-- A curve for red that is flat, since only a slot in the middle is in use. At the other depth the
two ends come in, and it is flat no longer. -/
def flatRed : Settings :=
  ⟨.smooth, .eight, (PerChannel.ofFn fun _ => []).set .red
    (List.replicate 8 emptyPoint ++ ⟨128, 200⟩ :: List.replicate 8 emptyPoint)⟩

/-- At 16 bits its end points are in use, and they are still in use when it is back at 8 bits. -/
theorem points_converted_flatRed :
    (ofSettings flatRed).WellFormed ∧ (ofSettings flatRed).depth ≠ .sixteen
      ∧ ((ofSettings flatRed).channels.get .red).kind = .smooth
      ∧ ((ofSettings flatRed).channels.get .red).point 0 = emptyPoint
      ∧ (((ofSettings flatRed).converted .sixteen).channels.get .red).point 0 = ⟨0, 0⟩
      ∧ (((ofSettings flatRed).converted .sixteen).channels.get .red).point 8 ≠ emptyPoint
      ∧ ((((ofSettings flatRed).converted .sixteen).converted .eight).channels.get .red).points
        ≠ ((ofSettings flatRed).channels.get .red).points := by
  have hwellFormed := wellFormed_ofSettings flatRed
  have hdepth : (ofSettings flatRed).depth ≠ .sixteen := by decide
  have hkind : ((ofSettings flatRed).channels.get .red).kind = .smooth := by decide
  have hfirst : ((ofSettings flatRed).channels.get .red).point 0 = emptyPoint := by decide
  have hmiddle : ((ofSettings flatRed).channels.get .red).point 8 ≠ emptyPoint := by decide
  obtain ⟨-, hknots, hempty, hback⟩ := points_converted hwellFormed hdepth hkind
  exact ⟨hwellFormed, hdepth, hkind, hfirst, hempty 0 hfirst, (hknots 8 hmiddle).1,
    fun hsame => ((hback rfl).2.mp hsame).1 hfirst⟩

end Curves

end Darkroom
