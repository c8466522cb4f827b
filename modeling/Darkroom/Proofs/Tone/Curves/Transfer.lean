import Darkroom.Proofs.Decimal.WholePart
import Darkroom.Proofs.Tone.Curves.Checked
import Darkroom.Proofs.Tone.Words

/-!
# No index leaves curves when they are read

An intensity below one, or one that is no number, lies between two levels that are both there, since its
place has a whole part below the largest level (`Decimal.wholePart_mul_lt`). So the tables of curves with
checked indices are those of the curves (`luts_eq`), whatever was done to the curves before
(`edited_stays_inside`).
-/

namespace Darkroom

namespace Curve

variable {depth : Depth}

theorem Full.read {values : Array UInt16} (h : Full depth values) {i : ℕ}
    (hi : i ≤ depth.maxValue) : values[i]? = some (values.getD i 0) := by
  rw [Array.getD_eq_getD_getElem?, Array.getElem?_eq_getElem (h.lt_size hi), Option.getD_some]

/-- The level behind the place of an intensity is there. -/
theorem wholePart_place_lt (depth : Depth) {intensity : Float} (hlow : ¬intensity < 0.0)
    (hhigh : ¬intensity ≥ 1.0) :
    Decimal.wholePart (intensity * Float.ofNat depth.maxValue) < depth.maxValue := by
  cases depth with
  | eight => exact Decimal.wholePart_mul_lt (k := 8) (by decide) (by decide) rfl hlow hhigh
  | sixteen => exact Decimal.wholePart_mul_lt (k := 16) (by decide) (by decide) rfl hlow hhigh

/-- What a curve shows: a value for each level of the depth, and points that are within its range or stand
for an empty slot. -/
structure InRange (depth : Depth) (c : Curve) : Prop where
  size : c.values.size = depth.segments
  values : ∀ v ∈ c.values, v.toNat ≤ depth.maxValue
  points : ∀ p ∈ c.points, p = emptyPoint
    ∨ (0 ≤ p.x.toInt ∧ p.x.toInt ≤ depth.maxValue) ∧ 0 ≤ p.y.toInt ∧ p.y.toInt ≤ depth.maxValue

theorem WellFormed.inRange {c : Curve} (h : c.WellFormed depth) : c.InRange depth := by
  obtain ⟨hfull, hslots⟩ := wellFormed_iff.mp h
  refine ⟨hfull.1, hfull.2, fun p hp => ?_⟩
  obtain ⟨slot, hslot, rfl⟩ := List.mem_map.mp hp
  cases slot with
  | none => exact .inl rfl
  | some k =>
    obtain ⟨hx, hy⟩ := hslots.2 k hslot
    have hpointX : k.point.x.toInt = k.x.toNat := Knot.toInt_toInt32_level k.x
    have hpointY : k.point.y.toInt = k.y.toNat := Knot.toInt_toInt32_level k.y
    have hpoint : slotPoint (some k) = k.point := rfl
    rw [hpoint]
    omega

namespace Checked

theorem map_eq {c : Curve} (h : c.WellFormed depth) (intensity : Float) :
    map depth c intensity = some (c.map depth intensity) := by
  obtain ⟨hfull, -⟩ := wellFormed_iff.mp h
  rw [map, Curve.map]
  split
  · rw [hfull.read (Nat.zero_le _)]
    rfl
  · rename_i hlow
    split
    · rw [hfull.read le_rfl]
      rfl
    · rename_i hhigh
      have hbin := wholePart_place_lt depth hlow hhigh
      simp only [hfull.read hbin.le, hfull.read hbin, Option.bind_eq_bind, Option.bind_some]
      rfl

end Checked

end Curve

namespace Curves

variable {c : Curves}

namespace Checked

theorem transfer_eq (h : c.WellFormed) (component : Component) (intensity : Float32) :
    transfer c component intensity = some (c.transfer component intensity) := by
  have hluminosity : c.channels.luminosity.WellFormed c.depth := h .luminosity
  rw [transfer, Curve.Checked.map_eq (h component.channel), Option.bind_eq_bind, Option.bind_some]
  cases component with
  | alpha => rfl
  | _ =>
    simp only [Curve.Checked.map_eq hluminosity, Option.map_some]
    rfl

theorem entry_eq (h : c.WellFormed) (component : Component) (v : ℕ) :
    entry c component v = some (UInt16.ofNat (c.entry component v)) := by
  rw [entry, transfer_eq h]
  rfl

theorem luts_eq (h : c.WellFormed) : luts c = some c.luts := by
  have htable : ∀ depth component, Histogram.Words.tableOf? depth (entry c component)
      = some (Luts.tableOf depth (c.entry component)) := fun _ component =>
    Histogram.Words.tableOf?_eq fun v _ => entry_eq h component v
  simp only [luts, Curves.luts, List.foldlM_cons, List.foldlM_nil, List.foldl_cons, List.foldl_nil,
    htable, Option.map_some, Option.bind_eq_bind, Option.bind_some]
  rfl

end Checked

/-! ## Whatever is done to curves -/

/-- Drawing a channel, any segment of it, an intensity of a component and the tables meet no index outside
the values. -/
structure StayInside (c : Curves) : Prop where
  calculate : ∀ channel, Curve.Checked.calculate c.depth (c.channels.get channel)
    = some ((c.channels.get channel).calculate c.depth)
  plot : ∀ channel (before start stop behind : Point), (Curve.Checked.plot c.depth
    (c.channels.get channel).values before start stop behind).isSome
  transfer : ∀ component intensity, Checked.transfer c component intensity
    = some (c.transfer component intensity)
  luts : Checked.luts c = some c.luts

theorem WellFormed.stayInside (h : c.WellFormed) : c.StayInside where
  calculate channel := Curve.Checked.calculate_eq (h channel)
  plot channel := Curve.Checked.plot_isSome (Curve.wellFormed_iff.mp (h channel)).1
  transfer := Checked.transfer_eq h
  luts := Checked.luts_eq h

/-- After any edits, every channel has a value for each level of the depth and all of them are within its
range, every point is `(-1, -1)` or has both coordinates within it, and no index has left the values on the
way there or leaves them afterwards. -/
theorem edited_stays_inside (depth : Depth) (edits : List Edit) :
    (∀ channel, (((edited depth edits).channels.get channel).InRange (edited depth edits).depth))
      ∧ Checked.edited depth edits = some (edited depth edits)
      ∧ (edited depth edits).StayInside := by
  have h := wellFormed_edited depth edits
  exact ⟨fun channel => (h channel).inRange, Checked.edited_eq depth edits, h.stayInside⟩

end Curves

end Darkroom
