import Darkroom.Proofs.Geometry
import Darkroom.Proofs.Tone.Curves.Tracing
import Darkroom.Tone.Curves.Sets

/-!
# Curves stay well-formed

Whatever is done to curves, each has a full table of values and seventeen slots, all within the range of
the depth (`wellFormed_edited`). Values only change by being set to a number that is clamped before
(`Full.overlaid`), points only get into slots after a look at both coordinates (`fits_ofPoint?`), and the
number of values changes with the depth alone. Where a curve is drawn, this holds along any tracing.
-/

namespace Darkroom

variable {depth source target : Depth}

/-! ## Points of control points -/

namespace Knot

theorem toInt_toInt32_level (v : UInt16) : v.toUInt32.toInt32.toInt = v.toNat := by
  have hv := v.toNat_lt
  rw [toInt_toInt32, UInt16.toNat_toUInt32, if_pos (by omega)]

/-- The point of a control point never looks like an empty slot. -/
theorem point_x_ne (k : Knot) : k.point.x ≠ -1 := by
  intro h
  have hint := toInt_toInt32_level k.x
  have hneg : k.x.toUInt32.toInt32.toInt = -1 := congrArg Int32.toInt h
  omega

end Knot

namespace Curve

/-! ## Tables -/

/-- A value for each level of a depth, all within its range. Every way to draw a curve keeps this,
and it is what a table of the filter has to be. -/
def Full (depth : Depth) (values : Array UInt16) : Prop :=
  values.size = depth.segments ∧ ∀ v ∈ values, v.toNat ≤ depth.maxValue

theorem Full.tableOf {f : ℕ → ℕ} (h : ∀ v ≤ depth.maxValue, f v ≤ depth.maxValue) :
    Full depth (Luts.tableOf depth f) := by
  refine ⟨Array.size_ofFn, fun v hv => ?_⟩
  obtain ⟨i, rfl⟩ := Array.mem_ofFn.mp hv
  have hle := h i.val (Nat.le_of_lt_succ i.isLt)
  rwa [toNat_ofNat_level hle]

variable {values : Array UInt16}

theorem Full.lt_size (h : Full depth values) {i : ℕ} (hi : i ≤ depth.maxValue) :
    i < values.size := by
  rw [h.1]
  exact Nat.lt_succ_of_le hi

/-- What is laid over a full table is within the range of the depth. -/
theorem Full.overlaid (h : Full depth values) {f : Array UInt16 → Array UInt16}
    (hf : Overlays (·.toNat ≤ depth.maxValue) f) : Full depth (f values) := by
  refine ⟨by rw [hf.size, h.1], fun v hv => ?_⟩
  rcases hf.mem_cases values hv with hnew | hold
  · exact hnew
  · exact h.2 v hold

theorem Full.set (h : Full depth values) (i : ℕ) {v : UInt16} (hv : v.toNat ≤ depth.maxValue) :
    Full depth (values.setIfInBounds i v) :=
  h.overlaid (.set i hv)

theorem Full.plot (h : Full depth values) (a b c d : Knot) :
    Full depth (plot depth values a b c d) := by
  rw [← Tracing.markAll_catmullRom]
  exact h.overlaid (Tracing.overlays_markAll depth _)

theorem Full.plotAll (before : Knot) (knots : List Knot) (h : Full depth values) :
    Full depth (plotAll depth before values knots) := by
  rw [← Tracing.plotAll_catmullRom]
  exact h.overlaid (Tracing.catmullRom.overlays_plotAll before knots)

theorem Full.fillEnds (h : Full depth values) {first last : Knot} (hfirst : first.fits depth)
    (hlast : last.fits depth) : Full depth (fillEnds first last values) :=
  h.overlaid (overlays_fillEnds hfirst.2 hlast.2)

/-! ## Slots -/

/-- Seventeen slots with control points within the range of a depth. Points from outside are checked
when they are set, so this is kept by every edit. -/
def SlotsFit (depth : Depth) (slots : List (Option Knot)) : Prop :=
  slots.length = slotCount ∧ ∀ k, some k ∈ slots → k.fits depth

theorem wellFormed_iff {c : Curve} :
    c.WellFormed depth ↔ Full depth c.values ∧ SlotsFit depth c.slots :=
  and_assoc.symm

theorem fits_ofPoint? {p : Point} {k : Knot} (h : Knot.ofPoint? depth p = some k) :
    k.fits depth := by
  simp only [Knot.ofPoint?] at h
  split at h
  · rename_i hin
    obtain rfl := Option.some.inj h
    have hx : p.x.toInt.toNat ≤ depth.maxValue := by omega
    have hy : p.y.toInt.toNat ≤ depth.maxValue := by omega
    exact ⟨(toNat_ofNat_level hx).trans_le hx, (toNat_ofNat_level hy).trans_le hy⟩
  · cases h

theorem SlotsFit.set {slots : List (Option Knot)} (h : SlotsFit depth slots) (slot : ℕ)
    {new : Option Knot} (hnew : ∀ k, new = some k → k.fits depth) :
    SlotsFit depth (slots.set slot new) := by
  refine ⟨by rw [List.length_set, h.1], fun k hk => ?_⟩
  rcases List.mem_or_eq_of_mem_set hk with hold | heq
  · exact h.2 k hold
  · exact hnew k heq.symm

variable {c : Curve}

theorem WellFormed.fits_knots (h : c.WellFormed depth) : ∀ k ∈ c.knots, k.fits depth := by
  intro k hk
  obtain ⟨slot, hslot, rfl⟩ := List.mem_filterMap.mp hk
  exact (wellFormed_iff.mp h).2.2 k hslot

/-! ## One curve -/

/-- The kind of a curve says nothing about its values and slots. -/
theorem WellFormed.withKind (h : c.WellFormed depth) (kind : CurveKind) :
    { c with kind }.WellFormed depth :=
  h

theorem wellFormed_linear (depth : Depth) : (linear depth).WellFormed depth := by
  refine wellFormed_iff.mpr ⟨.tableOf fun v hv => hv, rfl, fun k hk => ?_⟩
  have hmax : (UInt16.ofNat depth.maxValue).toNat = depth.maxValue := toNat_ofNat_level le_rfl
  rcases List.mem_append.mp hk with hk | hk
  · rcases List.mem_cons.mp hk with heq | hk
    · obtain rfl := Option.some.inj heq
      exact ⟨Nat.zero_le _, Nat.zero_le _⟩
    · cases List.eq_of_mem_replicate hk
  · obtain rfl := Option.some.inj (List.mem_singleton.mp hk)
    exact ⟨hmax.le, hmax.le⟩

theorem wellFormed_reset (depth : Depth) (c : Curve) : (c.reset depth).WellFormed depth :=
  (wellFormed_linear depth).withKind c.kind

theorem WellFormed.setPoint (h : c.WellFormed depth) (slot : ℕ) (p : Point) :
    (c.setPoint depth slot p).WellFormed depth := by
  obtain ⟨hvalues, hslots⟩ := wellFormed_iff.mp h
  rw [Curve.setPoint]
  split
  · exact wellFormed_iff.mpr ⟨hvalues, hslots.set slot fun k hk => by cases hk⟩
  · split
    · exact h
    · rename_i k hpoint
      refine wellFormed_iff.mpr ⟨hvalues, hslots.set slot fun k' hk => ?_⟩
      obtain rfl := Option.some.inj hk
      exact fits_ofPoint? hpoint

theorem WellFormed.setPointsFrom (h : c.WellFormed depth) (slot : ℕ) (points : List Point) :
    (c.setPointsFrom depth slot points).WellFormed depth := by
  induction points generalizing c slot with
  | nil => exact h
  | cons p rest ih => exact ih (h.setPoint slot p) (slot + 1)

theorem WellFormed.setPoints (h : c.WellFormed depth) (points : List Point) :
    (c.setPoints depth points).WellFormed depth := by
  have hreset := wellFormed_reset depth c
  fun_cases Curve.setPoints depth c points with
  | case1 hfull => exact h.setPointsFrom ..
  | case2 hshort => exact hreset
  | case3 p hshort => exact hreset.setPoint ..
  | case4 p q rest hshort => exact (hreset.setPointsFrom ..).setPoint ..

theorem toNat_bounded_le (depth : Depth) (v : ℤ) : (bounded depth v).toNat ≤ depth.maxValue := by
  have hle := clampNat_le depth.maxValue v
  rwa [bounded, toNat_ofNat_level hle]

theorem WellFormed.setValue (h : c.WellFormed depth) (bin : ℕ) (v : ℤ) :
    (c.setValue depth bin v).WellFormed depth := by
  obtain ⟨hvalues, hslots⟩ := wellFormed_iff.mp h
  exact wellFormed_iff.mpr ⟨hvalues.set bin (toNat_bounded_le depth v), hslots⟩

theorem Tracing.wellFormed_calculate (t : Tracing) (h : c.WellFormed depth) :
    (t.calculate depth c).WellFormed depth := by
  obtain ⟨hvalues, hslots⟩ := wellFormed_iff.mp h
  rw [Tracing.calculate]
  split
  · exact h
  · exact wellFormed_iff.mpr ⟨hvalues.overlaid (t.overlays_drawn h.fits_knots), hslots⟩

theorem WellFormed.calculate (h : c.WellFormed depth) : (c.calculate depth).WellFormed depth := by
  rw [← Tracing.calculate_catmullRom]
  exact Tracing.catmullRom.wellFormed_calculate h

/-! ## The other depth -/

theorem toNat_scaled_le (target : Depth) (v : UInt16) :
    (scaled target v).toNat ≤ target.maxValue := by
  have hv := v.toNat_lt
  cases target with
  | eight =>
    have hle : (v.toNat + 128) / 257 ≤ Depth.eight.maxValue :=
      show (v.toNat + 128) / 257 ≤ 255 by omega
    exact (toNat_ofNat_level hle).trans_le hle
  | sixteen => exact Nat.le_of_lt_succ (scaled .sixteen v).toNat_lt

theorem full_stretched (values : Array UInt16) : Full .sixteen (stretched Float values) :=
  .tableOf fun _ _ => roundClamp_le _ _

/-- Every 257th of 65536 values is one of 256. -/
theorem full_thinned (hsize : values.size = Depth.sixteen.segments) :
    Full .eight (thinned values) := by
  refine ⟨?_, fun v hv => ?_⟩
  · rw [thinned, Array.size_ofFn, hsize]
    rfl
  · obtain ⟨i, rfl⟩ := Array.mem_ofFn.mp hv
    exact toNat_scaled_le .eight _

/-- What is made of two lists of slots fits where it is not taken from the second. -/
theorem SlotsFit.zipWith {slots others : List (Option Knot)}
    {f : Option Knot → Option Knot → Option Knot} (hlength : slots.length = slotCount)
    (hothers : SlotsFit depth others)
    (hf : ∀ slot other k, f slot other = some k → other = some k ∨ k.fits depth) :
    SlotsFit depth (List.zipWith f slots others) := by
  refine ⟨by rw [List.length_zipWith, hlength, hothers.1, Nat.min_self], fun k hk => ?_⟩
  obtain ⟨i, hi⟩ := List.mem_iff_getElem?.mp hk
  obtain ⟨slot, other, -, hother, heq⟩ := List.getElem?_zipWith_eq_some.mp hi
  rcases hf slot other k heq with rfl | hfits
  · exact hothers.2 k (List.mem_of_getElem? hother)
  · exact hfits

theorem WellFormed.rescaled (h : c.WellFormed source) (hne : source ≠ target) :
    (c.rescaled target).WellFormed target := by
  obtain ⟨hvalues, hslots⟩ := wellFormed_iff.mp h
  obtain ⟨hlinear, hends⟩ := wellFormed_iff.mp (wellFormed_linear target)
  unfold Curve.rescaled
  cases c.kind with
  | smooth =>
    refine wellFormed_iff.mpr ⟨hlinear, .zipWith hslots.1 hends fun slot other k hk => ?_⟩
    cases slot with
    | none => exact .inl hk
    | some old =>
      obtain rfl := Option.some.inj hk
      exact .inr ⟨toNat_scaled_le target _, toNat_scaled_le target _⟩
  | free =>
    refine wellFormed_iff.mpr ⟨?_, hends⟩
    cases target with
    | sixteen =>
      dsimp only
      exact full_stretched c.values
    | eight =>
      have hsource : source = .sixteen := by
        cases source with
        | eight => exact absurd rfl hne
        | sixteen => rfl
      exact full_thinned (hsource ▸ hvalues.1)

theorem Tracing.wellFormed_converted (t : Tracing) (h : c.WellFormed source) (target : Depth) :
    (t.converted source target c).WellFormed target := by
  rw [Tracing.converted]
  split
  · rename_i heq
    exact heq ▸ h
  · rename_i hne
    exact t.wellFormed_calculate (h.rescaled hne)

theorem WellFormed.converted (h : c.WellFormed source) (target : Depth) :
    (c.converted source target).WellFormed target := by
  rw [← Tracing.converted_catmullRom]
  exact Tracing.catmullRom.wellFormed_converted h target

/-! ## Lists of values -/

theorem Tracing.wellFormed_sampled (t : Tracing) (depth : Depth) (values : List Point) :
    (t.sampled depth values).WellFormed depth :=
  t.wellFormed_calculate ((wellFormed_linear depth).setPointsFrom ..)

/-- A list of the wrong length goes through a curve of another depth, which has the right number of values
in the end. -/
theorem Tracing.wellFormed_setValues (t : Tracing) (h : c.WellFormed depth) (values : List Point) :
    (t.setValues depth c values).WellFormed depth := by
  obtain ⟨-, hslots⟩ := wellFormed_iff.mp h
  rw [Tracing.setValues]
  split
  · exact wellFormed_reset depth c
  · split
    · rename_i hlength
      refine wellFormed_iff.mpr ⟨⟨by rw [List.size_toArray, List.length_map, hlength], ?_⟩, hslots⟩
      intro v hv
      obtain ⟨p, -, rfl⟩ := List.mem_map.mp (List.mem_toArray.mp hv)
      exact toNat_bounded_le depth _
    · have hsampled := t.wellFormed_converted (t.wellFormed_sampled
        (if values.length = Depth.eight.segments then .eight else .sixteen) values) depth
      exact wellFormed_iff.mpr ⟨(wellFormed_iff.mp hsampled).1, hslots⟩

theorem WellFormed.setValues (h : c.WellFormed depth) (values : List Point) :
    (c.setValues depth values).WellFormed depth := by
  rw [← Tracing.setValues_catmullRom]
  exact Tracing.catmullRom.wellFormed_setValues h values

theorem Tracing.wellFormed_curveOf (t : Tracing) (kind : CurveKind) (depth : Depth)
    (points : List Point) : (t.curveOf kind depth points).WellFormed depth := by
  have hstart := (wellFormed_linear depth).withKind kind
  cases kind with
  | smooth => exact t.wellFormed_calculate (hstart.setPoints points)
  | free => exact t.wellFormed_setValues hstart points

end Curve

/-! ## All channels -/

theorem PerChannel.get_set {α : Type} (p : PerChannel α) (changed channel : Channel) (a : α) :
    (p.set changed a).get channel = if channel = changed then a else p.get channel := by
  cases changed <;> cases channel <;> rfl

theorem PerChannel.get_map {α β : Type} (f : α → β) (p : PerChannel α) (channel : Channel) :
    (p.map f).get channel = f (p.get channel) :=
  PerChannel.get_ofFn _ channel

namespace Curves

def WellFormed (c : Curves) : Prop :=
  ∀ channel, (c.channels.get channel).WellFormed c.depth

theorem wellFormed_new (depth : Depth) : (new depth).WellFormed := by
  intro channel
  rw [new, PerChannel.get_ofFn]
  exact Curve.wellFormed_linear depth

theorem wellFormed_ofSettings (s : Settings) : (ofSettings s).WellFormed := by
  intro channel
  rw [← Curve.Tracing.ofSettings_catmullRom, Curve.Tracing.ofSettings, PerChannel.get_map]
  exact Curve.Tracing.catmullRom.wellFormed_curveOf s.kind s.depth _

variable {c : Curves}

theorem WellFormed.converted (h : c.WellFormed) (depth : Depth) : (c.converted depth).WellFormed := by
  intro channel
  rw [Curves.converted, PerChannel.get_map]
  exact (h channel).converted depth

theorem WellFormed.calculate (h : c.WellFormed) : c.calculate.WellFormed := by
  intro channel
  rw [Curves.calculate, PerChannel.get_map]
  exact (h channel).calculate

/-- A change of one channel leaves the others alone. -/
theorem WellFormed.modify (h : c.WellFormed) (channel : Channel) {f : Depth → Curve → Curve}
    (hf : ∀ curve : Curve, curve.WellFormed c.depth → (f c.depth curve).WellFormed c.depth) :
    (c.modify channel f).WellFormed := by
  intro other
  rw [Curves.modify, PerChannel.get_set]
  split
  · exact hf _ (h channel)
  · exact h other

theorem WellFormed.edit (h : c.WellFormed) (e : Edit) : (c.edit e).WellFormed := by
  cases e with
  | new depth => exact wellFormed_new depth
  | ofSettings settings => exact wellFormed_ofSettings settings
  | converted depth => exact h.converted depth
  | reset channel => exact h.modify channel fun curve _ => Curve.wellFormed_reset c.depth curve
  | setKind channel kind => exact h.modify channel fun _ hcurve => hcurve.withKind kind
  | setPoint channel slot p => exact h.modify channel fun _ hcurve => hcurve.setPoint slot p
  | setPoints channel points => exact h.modify channel fun _ hcurve => hcurve.setPoints points
  | setValue channel bin v => exact h.modify channel fun _ hcurve => hcurve.setValue bin v
  | setValues channel values => exact h.modify channel fun _ hcurve => hcurve.setValues values
  | calculate channel => exact h.modify channel fun _ hcurve => hcurve.calculate
  | calculateAll => exact h.calculate

theorem edited_concat (depth : Depth) (edits : List Edit) (e : Edit) :
    edited depth (edits ++ [e]) = (edited depth edits).edit e := by
  rw [edited, List.foldl_append]
  rfl

theorem wellFormed_edited (depth : Depth) (edits : List Edit) : (edited depth edits).WellFormed := by
  induction edits using List.reverseRecOn with
  | nil => exact wellFormed_new depth
  | append_singleton edits e ih =>
    rw [edited_concat]
    exact ih.edit e

end Curves

end Darkroom
