import Darkroom.Proofs.Tone.Curves.Drawing

/-!
# Curves come back from their settings

The settings of curves list the points of all slots, or a value for each level. A full list is taken as
it is, and every point and value in it is within range, so what is built from the list has the slots, or
the values, of the curve that it came from (`Curve.Tracing.curveOf_points`,
`Curve.Tracing.curveOf_valuePoints`). The values of a smooth curve follow from its slots, since every
curve that settings describe is drawn on the table of the linear curve. Only curves that count as
changing nothing give no lists, and may come back as other curves: hence the hypothesis of
`Curves.ofSettings_settings`.
-/

namespace Darkroom

variable {depth : Depth}

theorem Knot.ofPoint?_point {k : Knot} (h : k.fits depth) : ofPoint? depth k.point = some k := by
  have hx : k.point.x.toInt = k.x.toNat := toInt_toInt32_level k.x
  have hy : k.point.y.toInt = k.y.toNat := toInt_toInt32_level k.y
  have hin : (0 : ℤ) ≤ k.x.toNat ∧ (k.x.toNat : ℤ) ≤ depth.maxValue ∧
      (0 : ℤ) ≤ k.y.toNat ∧ (k.y.toNat : ℤ) ≤ depth.maxValue := by
    obtain ⟨hfitsX, hfitsY⟩ := h
    omega
  simp only [ofPoint?, hx, hy]
  rw [if_pos hin, Int.toNat_natCast, Int.toNat_natCast, UInt16.ofNat_toNat, UInt16.ofNat_toNat]

namespace Curve

variable {c : Curve}

/-! ## Slots from points -/

theorem setPoint_slotPoint {new : Option Knot} (hnew : ∀ k, new = some k → k.fits depth) (slot : ℕ) :
    c.setPoint depth slot (slotPoint new) = { c with slots := c.slots.set slot new } := by
  cases new with
  | none => exact if_pos rfl
  | some k =>
    rw [setPoint, if_neg (show (slotPoint (some k)).x ≠ -1 from k.point_x_ne), slotPoint,
      Knot.ofPoint?_point (hnew k rfl)]

/-- Setting slots from the points of other slots copies those. -/
theorem setPointsFrom_slotPoints {before old new : List (Option Knot)}
    (hlength : old.length = new.length) (hslots : c.slots = before ++ old)
    (hnew : ∀ k, some k ∈ new → k.fits depth) :
    c.setPointsFrom depth before.length (new.map slotPoint)
      = { c with slots := before ++ new } := by
  induction new generalizing before old c with
  | nil =>
    obtain rfl := List.eq_nil_of_length_eq_zero hlength
    rw [← hslots]
    rfl
  | cons slot new ih =>
    cases old with
    | nil => cases hlength
    | cons first old =>
      have hset : c.slots.set before.length slot = (before ++ [slot]) ++ old := by
        rw [hslots, List.set_append_right _ _ le_rfl, Nat.sub_self, List.set_cons_zero,
          List.append_assoc, List.singleton_append]
      have hrest : ({ c with slots := c.slots.set before.length slot } : Curve).setPointsFrom depth
          (before ++ [slot]).length (new.map slotPoint) = { c with slots := (before ++ [slot]) ++ new } :=
        ih (Nat.succ.inj hlength) hset fun k hk => hnew k (List.mem_cons_of_mem _ hk)
      rw [List.length_append, List.length_singleton, List.append_assoc,
        List.singleton_append] at hrest
      rw [List.map_cons, setPointsFrom,
        setPoint_slotPoint fun k hk => hnew k (hk ▸ List.mem_cons_self)]
      exact hrest

theorem setPoints_points {other : Curve} (h : SlotsFit depth c.slots)
    (hlength : other.slots.length = slotCount) :
    other.setPoints depth c.points = { other with slots := c.slots } := by
  have hfull : c.points.length = slotCount := (List.length_map _).trans h.1
  have hcopy : other.setPointsFrom depth ([] : List (Option Knot)).length c.points
      = { other with slots := [] ++ c.slots } :=
    setPointsFrom_slotPoints (hlength.trans h.1.symm) rfl h.2
  unfold setPoints
  rw [if_pos hfull.ge, ← hfull, List.take_length]
  exact hcopy

/-! ## What setting points leaves alone -/

theorem setPoint_fields (depth : Depth) (c : Curve) (slot : ℕ) (p : Point) :
    (c.setPoint depth slot p).values = c.values ∧ (c.setPoint depth slot p).kind = c.kind := by
  rw [setPoint]
  split
  · exact ⟨rfl, rfl⟩
  · split <;> exact ⟨rfl, rfl⟩

theorem setPointsFrom_fields (depth : Depth) (c : Curve) (slot : ℕ) (points : List Point) :
    (c.setPointsFrom depth slot points).values = c.values ∧
      (c.setPointsFrom depth slot points).kind = c.kind := by
  induction points generalizing c slot with
  | nil => exact ⟨rfl, rfl⟩
  | cons p rest ih =>
    obtain ⟨hvalues, hkind⟩ := ih (c.setPoint depth slot p) (slot + 1)
    exact ⟨hvalues.trans (setPoint_fields depth c slot p).1, hkind.trans (setPoint_fields depth c slot p).2⟩

/-- A curve with the values of the linear curve keeps them when its points are set. -/
theorem setPoints_fields (h : c.values = (linear depth).values) (points : List Point) :
    (c.setPoints depth points).values = (linear depth).values ∧
      (c.setPoints depth points).kind = c.kind := by
  fun_cases setPoints depth c points with
  | case1 hfull =>
    obtain ⟨hvalues, hkind⟩ := setPointsFrom_fields depth c 0 (points.take slotCount)
    exact ⟨hvalues.trans h, hkind⟩
  | case2 hshort => exact ⟨rfl, rfl⟩
  | case3 p hshort => exact setPoint_fields ..
  | case4 p q rest hshort =>
    obtain ⟨hvalues, hkind⟩ :=
      setPointsFrom_fields depth (c.reset depth) 0 (p :: q :: rest).dropLast
    exact ⟨(setPoint_fields ..).1.trans hvalues, (setPoint_fields ..).2.trans hkind⟩

/-! ## Values from points -/

theorem bounded_level {v : UInt16} (h : v.toNat ≤ depth.maxValue) : bounded depth v.toNat = v := by
  rw [bounded, Arith.clampNat, Int.toNat_natCast, min_eq_left h, UInt16.ofNat_toNat]

/-- A list with the value of every level restores the values. -/
theorem bounded_valuePoints (h : Full depth c.values) :
    (c.valuePoints.map fun p => bounded depth p.y.toInt).toArray = c.values := by
  have hback : (c.valuePoints.map fun p => bounded depth p.y.toInt) = c.values.toList := by
    rw [valuePoints, List.map_map]
    refine (List.map_congr_left ?_).trans (List.zipIdx_map_fst 0 c.values.toList)
    rintro ⟨v, bin⟩ hp
    have hv := h.2 v (Array.mem_toList_iff.mp (List.fst_mem_of_mem_zipIdx hp))
    exact (congrArg (bounded depth) (Knot.toInt_toInt32_level v)).trans (bounded_level hv)
  rw [hback, Array.toArray_toList]

theorem length_valuePoints (c : Curve) : c.valuePoints.length = c.values.size := by
  rw [valuePoints, List.length_map, List.length_zipIdx, Array.length_toList]

namespace Tracing

variable (t : Tracing)

theorem setValues_valuePoints {other : Curve} (h : Full depth c.values) :
    t.setValues depth other c.valuePoints = { other with values := c.values } := by
  have hlength : c.valuePoints.length = depth.segments := (length_valuePoints c).trans h.1
  have hne : ¬c.valuePoints.isEmpty := by
    rw [List.isEmpty_iff_length_eq_zero, hlength]
    exact Nat.succ_ne_zero _
  rw [setValues, if_neg hne, if_pos hlength, bounded_valuePoints h]

/-- Whatever a list of values is, it leaves kind and slots to those of the linear curve. -/
theorem setValues_fields {start : Curve} (h : start.slots = (linear depth).slots)
    (values : List Point) : (t.setValues depth start values).slots = (linear depth).slots ∧
      (t.setValues depth start values).kind = start.kind := by
  rw [setValues]
  split
  · exact ⟨rfl, rfl⟩
  · split <;> exact ⟨h, rfl⟩

/-! ## One curve -/

theorem kind_curveOf (kind : CurveKind) (depth : Depth) (points : List Point) :
    (t.curveOf kind depth points).kind = kind := by
  cases kind with
  | smooth => exact (t.kind_calculate _).trans (setPoints_fields rfl points).2
  | free =>
    have hstart : ({ linear depth with kind := .free } : Curve).slots = (linear depth).slots := rfl
    exact (t.setValues_fields hstart points).2

/-- A smooth curve comes back from the points of its slots. -/
theorem curveOf_points (depth : Depth) (points : List Point) :
    t.curveOf .smooth depth (t.curveOf .smooth depth points).points
      = t.curveOf .smooth depth points := by
  obtain ⟨hvalues, hkind⟩ := setPoints_fields (c := linear depth) rfl points
  obtain ⟨-, hslots⟩ := wellFormed_iff.mp ((wellFormed_linear depth).setPoints points)
  have hsame : (linear depth).setPoints depth ((linear depth).setPoints depth points).points
      = (linear depth).setPoints depth points := by
    rw [setPoints_points hslots rfl, ← hvalues]
    exact congrArg (Curve.mk · _ _) hkind.symm
  have hpoints : (t.curveOf .smooth depth points).points
      = ((linear depth).setPoints depth points).points :=
    congrArg (List.map slotPoint) (t.slots_calculate _)
  rw [hpoints]
  exact congrArg (t.calculate depth) hsame

/-- A free curve comes back from its values. -/
theorem curveOf_valuePoints (depth : Depth) (points : List Point) :
    t.curveOf .free depth (t.curveOf .free depth points).valuePoints
      = t.curveOf .free depth points := by
  obtain ⟨hfull, -⟩ := wellFormed_iff.mp (t.wellFormed_curveOf .free depth points)
  have hstart : ({ linear depth with kind := .free } : Curve).slots = (linear depth).slots := rfl
  obtain ⟨hslots, hkind⟩ := t.setValues_fields hstart points
  refine (t.setValues_valuePoints hfull).trans ?_
  exact congrArg₂ (Curve.mk · · _) hkind.symm hslots.symm

end Tracing

end Curve

/-! ## All channels -/

theorem PerChannel.eq_of_get {α : Type} {p q : PerChannel α}
    (h : ∀ channel, p.get channel = q.get channel) : p = q :=
  congrArg ofFn (funext h)

namespace Curves

open Curve (Tracing)

theorem kind_settings (t : Tracing) (s : Settings) : (t.ofSettings s).settings.kind = s.kind := by
  have hkind : ∀ channel, ((t.ofSettings s).channels.get channel).kind = s.kind := fun channel => by
    rw [Tracing.ofSettings, PerChannel.get_map, t.kind_curveOf]
  have hany : (t.ofSettings s).channels.toList.any (·.kind = .free) = decide (s.kind = .free) := by
    simp [PerChannel.toList, Channel.all, hkind]
  rw [settings, hany]
  cases s.kind <;> rfl

variable {c : Curves}

/-- Smooth curves that change something are listed by the points of their slots. -/
theorem lists_settings_of_smooth (h : c.isLinear = false) (hkind : c.settings.kind = .smooth)
    (channel : Channel) : c.settings.lists.get channel = (c.channels.get channel).points := by
  simp only [settings] at hkind
  simp only [settings, h, hkind, Bool.false_eq_true, if_false, PerChannel.get_map]

/-- Curves of which one is free, and which change something, are listed by their values. -/
theorem lists_settings_of_free (h : c.isLinear = false) (hkind : c.settings.kind = .free)
    (channel : Channel) : c.settings.lists.get channel = (c.channels.get channel).valuePoints := by
  simp only [settings] at hkind
  simp only [settings, h, hkind, Bool.false_eq_true, if_false, PerChannel.get_map]

theorem ofSettings_settings_along (t : Tracing) {s : Settings}
    (h : (t.ofSettings s).isLinear = false) :
    t.ofSettings (t.ofSettings s).settings = t.ofSettings s := by
  have hcurve : ∀ channel, (t.ofSettings s).channels.get channel
      = t.curveOf s.kind s.depth (s.lists.get channel) := fun channel => PerChannel.get_map ..
  have hsettings := kind_settings t s
  refine congrArg (Curves.mk s.depth) (PerChannel.eq_of_get fun channel => ?_)
  rw [PerChannel.get_map, PerChannel.get_map, hsettings]
  cases hkind : s.kind with
  | smooth =>
    rw [lists_settings_of_smooth h (hsettings.trans hkind), hcurve, hkind]
    exact t.curveOf_points ..
  | free =>
    rw [lists_settings_of_free h (hsettings.trans hkind), hcurve, hkind]
    exact t.curveOf_valuePoints ..

/-- Curves that settings describe, unless they count as changing nothing, are those that their own settings
describe: along any tracing, and so for the curves of the library. -/
theorem ofSettings_settings (s : Settings) :
    (∀ t : Tracing, (t.ofSettings s).isLinear = false →
      t.ofSettings (t.ofSettings s).settings = t.ofSettings s) ∧
    ((ofSettings s).isLinear = false → ofSettings (ofSettings s).settings = ofSettings s) := by
  refine ⟨fun t h => ofSettings_settings_along t h, fun h => ?_⟩
  rw [← Tracing.ofSettings_catmullRom] at h ⊢
  exact ofSettings_settings_along _ h

/-- Settings with a list of the wrong length for each way to be wrong: a point twice, one out of range, one
with an empty slot before the end, and a single one. -/
def unruly : Settings :=
  ⟨.smooth, .eight, ⟨[⟨0, 255⟩, ⟨0, 255⟩, ⟨300, 7⟩, ⟨255, 0⟩], [⟨-1, 9⟩, ⟨128, 0⟩, ⟨-1, -1⟩],
    [⟨128, 150⟩], [], [⟨20, 40⟩, ⟨200, 220⟩]⟩⟩

/-- A tracing that comes to no place. Curves are drawn by their control points alone then, so what
is proved for every tracing can be run. -/
def still : Tracing :=
  ⟨fun _ _ _ _ _ => []⟩

theorem ofSettings_settings_unruly :
    (ofSettings unruly).isLinear = false ∧ (still.ofSettings unruly).isLinear = false
      ∧ ofSettings (ofSettings unruly).settings = ofSettings unruly
      ∧ still.ofSettings (still.ofSettings unruly).settings = still.ofSettings unruly := by
  have hlinear : (ofSettings unruly).isLinear = false := by decide
  have hstill : (still.ofSettings unruly).isLinear = false := by decide
  exact ⟨hlinear, hstill, (ofSettings_settings unruly).2 hlinear,
    (ofSettings_settings unruly).1 still hstill⟩

end Curves

end Darkroom
