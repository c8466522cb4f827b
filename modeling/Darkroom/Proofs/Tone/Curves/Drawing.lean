import Darkroom.Proofs.Tone.Curves.WellFormed

/-!
# A smooth curve goes through its control points

Control points are written last, in the order of their slots, so at its level the one in the highest slot
is what stays (`getElem?_markKnots`), wherever the segments came to before. Nothing that is written rests
on what was there, so a curve that has been drawn stays as it is when it is drawn again
(`Tracing.calculate_calculate`). Both hold along any tracing, and so does the main statement,
`Curves.calculate_hits_points`.
-/

namespace Darkroom

namespace Curve

variable {depth : Depth} {values : Array UInt16} {c : Curve}

/-! ## Slots -/

/-- A slot is empty, or it shows its control point. -/
theorem empty_or_knot (c : Curve) (i : ℕ) :
    (c.slots[i]?.join = none ∧ c.point i = emptyPoint) ∨
      ∃ k, c.slots[i]? = some (some k) ∧ c.point i = k.point := by
  rw [point]
  cases c.slots[i]? with
  | none => exact .inl ⟨rfl, rfl⟩
  | some slot =>
    cases slot with
    | none => exact .inl ⟨rfl, rfl⟩
    | some k => exact .inr ⟨k, rfl, rfl⟩

theorem exists_knot {i : ℕ} (h : (c.point i).x ≠ -1) :
    ∃ k, c.slots[i]? = some (some k) ∧ c.point i = k.point := by
  rcases c.empty_or_knot i with ⟨-, hempty⟩ | hknot
  · exact absurd (congrArg Point.x hempty) h
  · exact hknot

theorem point_of_knot {i : ℕ} {k : Knot} (h : c.slots[i]? = some (some k)) : c.point i = k.point := by
  rw [point, h]
  rfl

/-- The control points behind a slot are those of higher slots. -/
theorem knots_split {j : ℕ} {k : Knot} (h : c.slots[j]? = some (some k)) :
    ∃ earlier later, c.knots = earlier ++ k :: later ∧
      ∀ k' ∈ later, ∃ l, j < l ∧ c.point l = k'.point := by
  obtain ⟨hj, hslot⟩ := List.getElem?_eq_some_iff.mp h
  refine ⟨(c.slots.take j).filterMap id, (c.slots.drop (j + 1)).filterMap id, ?_, fun k' hk' => ?_⟩
  · have hsplit : c.slots = c.slots.take j ++ some k :: c.slots.drop (j + 1) := by
      rw [← hslot, List.getElem_cons_drop, List.take_append_drop]
    exact (congrArg (List.filterMap id) hsplit).trans List.filterMap_append
  · obtain ⟨slot, hmem, rfl⟩ := List.mem_filterMap.mp hk'
    obtain ⟨i, hi⟩ := List.mem_iff_getElem?.mp hmem
    rw [List.getElem?_drop] at hi
    exact ⟨j + 1 + i, by omega, point_of_knot hi⟩

/-- Among the slots that show a level there is a highest. -/
theorem exists_highest {i : ℕ} (h : (c.point i).x ≠ -1) :
    ∃ j, i ≤ j ∧ (c.point j).x = (c.point i).x ∧ ∀ l, j < l → (c.point l).x ≠ (c.point i).x := by
  let shows (l : ℕ) : Prop := (c.point l).x = (c.point i).x
  have hle : ∀ l, shows l → l ≤ c.slots.length := fun l hl => by
    obtain ⟨k, hk, -⟩ := exists_knot (hl ▸ h)
    exact (List.getElem?_eq_some_iff.mp hk).1.le
  have hi : shows i := rfl
  refine ⟨Nat.findGreatest shows c.slots.length, Nat.le_findGreatest (hle i hi) hi,
    Nat.findGreatest_spec (P := shows) (hle i hi) hi, fun l hl hshows => ?_⟩
  exact Nat.findGreatest_is_greatest (P := shows) hl (hle l hshows) hshows

/-! ## Control points are written last -/

theorem getElem?_markKnots_of_ne {knots : List Knot} {i : ℕ} (h : ∀ k ∈ knots, k.x.toNat ≠ i) :
    (markKnots values knots)[i]? = values[i]? := by
  induction knots generalizing values with
  | nil => rfl
  | cons k rest ih =>
    rw [List.forall_mem_cons] at h
    exact (ih h.2).trans (Array.getElem?_setIfInBounds_ne h.1)

/-- The last of the control points at a level is what stays there. -/
theorem getElem?_markKnots {earlier later : List Knot} {k : Knot} (hin : k.x.toNat < values.size)
    (hlater : ∀ k' ∈ later, k'.x.toNat ≠ k.x.toNat) :
    (markKnots values (earlier ++ k :: later))[k.x.toNat]? = some k.y := by
  have hsize : (markKnots values earlier).size = values.size :=
    (Overlays.foldl (p := fun _ => True) earlier fun k _ => .set k.x.toNat trivial).size values
  have hsplit : markKnots values (earlier ++ k :: later)
      = markKnots ((markKnots values earlier).setIfInBounds k.x.toNat k.y) later :=
    List.foldl_append
  rw [hsplit, getElem?_markKnots_of_ne hlater, Array.getElem?_setIfInBounds_self_of_lt (hsize ▸ hin)]

namespace Tracing

variable (t : Tracing)

/-- Whatever is drawn before, the control points are written behind it. -/
theorem exists_drawn_eq (values : Array UInt16) {knots : List Knot} (hne : knots ≠ [])
    (hknots : ∀ k ∈ knots, k.fits depth) :
    ∃ before, before.size = values.size ∧ t.drawn depth knots values = markKnots before knots := by
  cases knots with
  | nil => exact absurd rfl hne
  | cons first rest =>
    have hfirst := (hknots first List.mem_cons_self).2
    have hlast := (hknots _ (getLastD_mem first rest)).2
    have hbefore := (t.overlays_plotAll first (first :: rest)).comp (overlays_fillEnds hfirst hlast)
    exact ⟨_, hbefore.size values, rfl⟩

theorem slots_calculate (c : Curve) : (t.calculate depth c).slots = c.slots := by
  rw [calculate]
  split <;> rfl

theorem kind_calculate (c : Curve) : (t.calculate depth c).kind = c.kind := by
  rw [calculate]
  split <;> rfl

theorem calculate_of_free (h : c.kind = .free) : t.calculate depth c = c := by
  rw [calculate, h]

theorem values_calculate_of_smooth (h : c.kind = .smooth) :
    (t.calculate depth c).values = t.drawn depth c.knots c.values := by
  rw [calculate, h]

/-- A curve that has been drawn stays as it is. -/
theorem calculate_calculate (h : c.WellFormed depth) :
    t.calculate depth (t.calculate depth c) = t.calculate depth c := by
  cases hkind : c.kind with
  | free => rw [t.calculate_of_free hkind, t.calculate_of_free hkind]
  | smooth =>
    have hagain := (t.overlays_drawn h.fits_knots).again c.values
    simp only [calculate, hkind, knots]
    rw [← knots, hagain]

/-- At the level of a control point a drawn curve has the value of the one in the highest slot. -/
theorem value_calculate (h : c.WellFormed depth) (hkind : c.kind = .smooth) {j : ℕ}
    (hj : (c.point j).x ≠ -1) (hhighest : ∀ l, j < l → (c.point l).x ≠ (c.point j).x) :
    (((t.calculate depth c).value (c.point j).x.toInt.toNat).toNat : ℤ) = (c.point j).y.toInt := by
  obtain ⟨hfull, hslots⟩ := wellFormed_iff.mp h
  obtain ⟨k, hslot, hpoint⟩ := exists_knot hj
  obtain ⟨earlier, later, hsplit, hlater⟩ := knots_split hslot
  have hfits : k.fits depth := hslots.2 k (List.mem_of_getElem? hslot)
  obtain ⟨before, hsize, hdrawn⟩ :=
    t.exists_drawn_eq c.values (by rw [hsplit]; simp) h.fits_knots
  have hother : ∀ k' ∈ later, k'.x.toNat ≠ k.x.toNat := by
    intro k' hk' heq
    obtain ⟨l, hl, hl'⟩ := hlater k' hk'
    have hx : k'.x = k.x := UInt16.toNat_inj.mp heq
    refine hhighest l hl ?_
    rw [hl', hpoint, Knot.point, Knot.point, hx]
  have hin : k.x.toNat < before.size := hsize ▸ hfull.lt_size hfits.1
  have hat : (t.calculate depth c).values[k.x.toNat]? = some k.y := by
    rw [t.values_calculate_of_smooth hkind, hdrawn, hsplit, getElem?_markKnots hin hother]
  have hx : (c.point j).x.toInt = k.x.toNat := by rw [hpoint, ← Knot.toInt_toInt32_level, Knot.point]
  have hy : (c.point j).y.toInt = k.y.toNat := by rw [hpoint, ← Knot.toInt_toInt32_level, Knot.point]
  rw [hx, hy, Int.toNat_natCast, value, Array.getD_eq_getD_getElem?, hat, Option.getD_some]

end Tracing

end Curve

/-! ## All channels -/

theorem PerChannel.set_get {α : Type} (p : PerChannel α) (channel : Channel) :
    p.set channel (p.get channel) = p := by
  cases channel <;> rfl

namespace Curves

variable {c : Curves} {f : Depth → Curve → Curve}

theorem get_modify_self (c : Curves) (channel : Channel) (f : Depth → Curve → Curve) :
    (c.modify channel f).channels.get channel = f c.depth (c.channels.get channel) :=
  (PerChannel.get_set ..).trans (if_pos rfl)

theorem get_modify_of_ne {channel other : Channel} (h : other ≠ channel) :
    (c.modify channel f).channels.get other = c.channels.get other :=
  (PerChannel.get_set ..).trans (if_neg h)

theorem modify_eq_self {channel : Channel}
    (h : f c.depth (c.channels.get channel) = c.channels.get channel) : c.modify channel f = c := by
  rw [modify, h, PerChannel.set_get]

/-- Drawing a channel, along any tracing, gives at the level of each of its control points the value of the
one in the highest slot at that level; changes nothing but the values of that channel, and nothing at all
if the curve is free; and changes nothing more when it is done again. -/
theorem calculate_hits_points (t : Curve.Tracing) (h : c.WellFormed) (channel : Channel) :
    let curve := c.channels.get channel
    let drawn := c.modify channel t.calculate
    (curve.kind = .smooth → ∀ i, (curve.point i).x ≠ -1 →
      ∃ j, i ≤ j ∧ (curve.point j).x = (curve.point i).x ∧
        (∀ l, j < l → (curve.point l).x ≠ (curve.point i).x) ∧
        (((drawn.channels.get channel).value (curve.point i).x.toInt.toNat).toNat : ℤ)
          = (curve.point j).y.toInt) ∧
    (drawn.depth = c.depth ∧ (drawn.channels.get channel).kind = curve.kind ∧
      (drawn.channels.get channel).slots = curve.slots ∧
      ∀ other, other ≠ channel → drawn.channels.get other = c.channels.get other) ∧
    (curve.kind = .free → drawn = c) ∧
    drawn.modify channel t.calculate = drawn ∧
    c.edit (.calculate channel) = c.modify channel Curve.Tracing.catmullRom.calculate := by
  intro curve drawn
  have hget : drawn.channels.get channel = t.calculate c.depth curve := get_modify_self ..
  refine ⟨fun hkind i hi => ?_, ⟨rfl, ?_, ?_, fun other hother => ?_⟩, fun hkind => ?_, ?_, ?_⟩
  · obtain ⟨j, hij, hx, hhighest⟩ := Curve.exists_highest hi
    refine ⟨j, hij, hx, hhighest, ?_⟩
    rw [← hx] at hi hhighest ⊢
    rw [hget]
    exact t.value_calculate (h channel) hkind hi hhighest
  · rw [hget, t.kind_calculate]
  · rw [hget, t.slots_calculate]
  · exact get_modify_of_ne hother
  · exact modify_eq_self (t.calculate_of_free hkind)
  · refine modify_eq_self ?_
    rw [hget]
    exact t.calculate_calculate (h channel)
  · rw [Curve.Tracing.calculate_catmullRom]
    rfl

def crossing : Curves :=
  edited .eight [.setPoint .red 3 ⟨64, 10⟩, .setPoint .red 5 ⟨64, 100⟩]

/-- The one in the higher slot gives the value. -/
theorem calculate_hits_points_crossing : crossing.WellFormed
    ∧ (crossing.channels.get .red).kind = .smooth
    ∧ ((crossing.channels.get .red).point 3).x ≠ -1
    ∧ (((crossing.edit (.calculate .red)).channels.get .red).value 64).toNat = 100 := by
  have hwellFormed : crossing.WellFormed := wellFormed_edited .eight _
  have hkind : (crossing.channels.get .red).kind = .smooth := by decide
  have hslot : ((crossing.channels.get .red).point 3).x ≠ -1 := by decide
  obtain ⟨hpoints, -, -, -, hedit⟩ :=
    calculate_hits_points Curve.Tracing.catmullRom hwellFormed .red
  obtain ⟨j, -, hx, hhighest, hvalue⟩ := hpoints hkind 3 hslot
  have hhigh : 5 ≤ j := not_lt.mp fun hlow => hhighest 5 hlow (by decide)
  have hin : j < Curve.slotCount := by
    obtain ⟨k, hk, -⟩ := Curve.exists_knot (hx ▸ hslot)
    exact (List.getElem?_eq_some_iff.mp hk).1
  have hy : ∀ l < Curve.slotCount, 5 ≤ l →
      ((crossing.channels.get .red).point l).x = ((crossing.channels.get .red).point 3).x →
      ((crossing.channels.get .red).point l).y.toInt = 100 := by decide
  rw [hy j hin hhigh hx, ← hedit] at hvalue
  exact ⟨hwellFormed, hkind, hslot, Int.ofNat.inj hvalue⟩

end Curves

end Darkroom
