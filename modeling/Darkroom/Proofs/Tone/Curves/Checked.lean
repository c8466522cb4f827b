import Darkroom.Proofs.Tone.Curves.WellFormed
import Darkroom.Tone.Curves.Checked

/-!
# No index leaves a curve when it is drawn

The slots in use show the control points one after the other (`shows_used`), so every neighbour that a
segment asks for is there, and its levels are clamped before they become indices. So a well-formed curve
with checked indices is drawn like the curve (`Curve.Checked.calculate_eq`), and edits with checked
indices, some of which draw a curve on the way, do what the edits do (`Curves.Checked.edited_eq`).
-/

namespace Darkroom

variable {depth : Depth} {values : Array UInt16}

/-! ## Coordinates -/

namespace Knot

theorem index_level (v : UInt16) : Curve.Checked.index v.toUInt32.toInt32 = v.toNat := by
  have hint := toInt_toInt32_level v
  have hnonneg : 0 ≤ v.toUInt32.toInt32.toInt64 := by
    rw [Int64.le_iff_toInt_le, Int32.toInt_toInt64, hint]
    exact Int.natCast_nonneg _
  rw [Curve.Checked.index, Int64.toNat_toUInt64_of_le hnonneg, Int64.toNatClampNeg,
    Int32.toInt_toInt64, hint, Int.toNat_natCast]

theorem level_level (v : UInt16) : Curve.Checked.level v.toUInt32.toInt32 = v := by
  simp [Curve.Checked.level]

theorem ofInt_level (v : UInt16) :
    Float.ofInt v.toUInt32.toInt32.toInt = Float.ofNat v.toNat := by
  rw [toInt_toInt32_level]
  rfl

end Knot

namespace Curve.Checked

/-! ## Segments -/

theorem put_eq {i : ℕ} (h : i < values.size) (v : UInt16) :
    put values i v = some (values.setIfInBounds i v) :=
  if_pos h

/-- Marking what is marked already changes nothing, so it does not matter that it is left out. -/
theorem follow_eq {max : ℕ} (hsize : max < values.size) (steps : ℕ) (x y : Cubic) {lastX lastY : ℕ}
    (hlast : values[lastX]? = some (UInt16.ofNat lastY)) :
    follow max steps x y lastX lastY values = some (Curve.follow max steps x y values) := by
  induction steps generalizing x y lastX lastY values with
  | zero => rfl
  | succ steps ih =>
    have hin : roundClamp x.next.value max < values.size :=
      lt_of_le_of_lt (roundClamp_le _ _) hsize
    simp only [follow, Curve.follow, mark]
    by_cases hnew : lastX ≠ roundClamp x.next.value max ∨ lastY ≠ roundClamp y.next.value max
    · rw [if_pos hnew, put_eq hin, Option.bind_eq_bind, Option.bind_some]
      refine ih (by rwa [Array.size_setIfInBounds]) x.next y.next ?_
      rw [Array.getElem?_setIfInBounds_self_of_lt hin]
    · obtain ⟨rfl, rfl⟩ : lastX = roundClamp x.next.value max ∧ lastY = roundClamp y.next.value max := by
        omega
      have hsame : values.setIfInBounds (roundClamp x.next.value max)
          (UInt16.ofNat (roundClamp y.next.value max)) = values := by
        refine Array.ext_getElem? fun i => ?_
        rw [Array.getElem?_setIfInBounds]
        split
        · rename_i hi
          rw [← hi, hlast]
        · rfl
      rw [if_neg hnew, Option.bind_eq_bind, Option.bind_some, hsame]
      exact ih hsize x.next y.next hlast

/-- The first mark is clamped like all others. -/
theorem put_follow_eq (hfull : Full depth values) (steps : ℕ) (x y : Cubic) (m n : ℤ) :
    ((put values (Arith.clampNat depth.maxValue m) (UInt16.ofNat (Arith.clampNat depth.maxValue n))).bind
      (follow depth.maxValue steps x y (Arith.clampNat depth.maxValue m)
        (Arith.clampNat depth.maxValue n)))
      = some (Curve.follow depth.maxValue steps x y
          (mark values (Arith.clampNat depth.maxValue m) (Arith.clampNat depth.maxValue n))) := by
  have hin := hfull.lt_size (clampNat_le depth.maxValue m)
  rw [put_eq hin, Option.bind_some]
  refine follow_eq ?_ steps x y (Array.getElem?_setIfInBounds_self_of_lt hin)
  rw [Array.size_setIfInBounds]
  exact hfull.lt_size le_rfl

/-- A segment may lie between any points. -/
theorem plot_isSome (hfull : Full depth values) (a b c d : Point) :
    (plot depth values a b c d).isSome := by
  simp only [plot, Option.bind_eq_bind, put_follow_eq hfull, Option.isSome_some]

theorem plot_eq (hfull : Full depth values) (a b c d : Knot) :
    plot depth values a.point b.point c.point d.point = some (Curve.plot depth values a b c d) := by
  simp only [plot, Knot.point, Knot.ofInt_level, Option.bind_eq_bind, put_follow_eq hfull]
  rfl

/-! ## Slots in use -/

/-- Some slots show control points one after the other. The loops go by slots and the curve by
control points, and this is how the two are kept in step. -/
def Shows (points : List Point) (used : List ℕ) (knots : List Knot) : Prop :=
  used.map (points[·]?) = knots.map fun k => some k.point

theorem shows_used (slots : List (Option Knot)) (h : slots.length = slotCount) :
    Shows (slots.map slotPoint) (used (slots.map slotPoint)) (slots.filterMap id) := by
  rw [Shows, used, ← h]
  clear h
  induction slots with
  | nil => rfl
  | cons slot rest ih =>
    have htail : (List.filter (inUse ((slot :: rest).map slotPoint))
          ((List.range rest.length).map Nat.succ)).map (((slot :: rest).map slotPoint)[·]?)
        = (rest.filterMap id).map fun k => some k.point := by
      rw [List.filter_map, List.map_map]
      exact ih
    rw [List.length_cons, List.range_succ_eq_map]
    cases slot with
    | none => exact htail
    | some k =>
      have hhead : inUse ((some k :: rest).map slotPoint) 0 = true := decide_eq_true k.point_x_ne
      rw [List.filter_cons_of_pos hhead, List.map_cons, htail]
      rfl

variable {points : List Point} {used : List ℕ} {knots : List Knot}

theorem Shows.length_eq (h : Shows points used knots) : used.length = knots.length := by
  simpa using congrArg List.length h

theorem Shows.get (h : Shows points used knots) {i : ℕ} {k : Knot} (hk : knots[i]? = some k) :
    ∃ slot, used[i]? = some slot ∧ points[slot]? = some k.point := by
  have hget := congrArg (·[i]?) h
  simp only [List.getElem?_map, hk, Option.map_some] at hget
  obtain ⟨slot, hslot, hpoint⟩ := Option.map_eq_some_iff.mp hget
  exact ⟨slot, hslot, hpoint⟩

/-! ## All segments -/

theorem segment_eq (hfull : Full depth values) (hshows : Shows points used knots) {i : ℕ}
    {before start stop behind : Knot} (hbefore : knots[i - 1]? = some before)
    (hstart : knots[i]? = some start) (hstop : knots[i + 1]? = some stop)
    (hbehind : knots[if i = knots.length - 2 then knots.length - 1 else i + 2]? = some behind) :
    segment depth points used values i = some (Curve.plot depth values before start stop behind) := by
  obtain ⟨slot₁, hused₁, hpoint₁⟩ := hshows.get hbefore
  obtain ⟨slot₂, hused₂, hpoint₂⟩ := hshows.get hstart
  obtain ⟨slot₃, hused₃, hpoint₃⟩ := hshows.get hstop
  obtain ⟨slot₄, hused₄, hpoint₄⟩ := hshows.get hbehind
  have hfirst : (if i = 0 then i else i - 1) = i - 1 := by
    split <;> omega
  simp only [segment, hfirst, hshows.length_eq, hused₁, hused₂, hused₃, hused₄, hpoint₁, hpoint₂,
    hpoint₃, hpoint₄, Option.bind_eq_bind, Option.bind_some]
  exact plot_eq hfull ..

/-- The segments from a control point on, with the one before it. -/
theorem foldlM_segment (hshows : Shows points used knots) {before : Knot} {rest : List Knot} {i : ℕ}
    (hfull : Full depth values) (hdrop : knots.drop i = rest)
    (hbefore : knots[i - 1]? = some before) :
    (List.range' i (rest.length - 1)).foldlM (segment depth points used) values
      = some (plotAll depth before values rest) := by
  fun_induction plotAll depth before values rest generalizing i with
  | case1 before values b c rest ih =>
    have hget : ∀ j, knots[i + j]? = (b :: c :: rest)[j]? := fun j => by
      rw [← List.getElem?_drop, hdrop]
    have hlength : knots.length = i + 2 + rest.length := by
      have hlength := congrArg List.length hdrop
      rw [List.length_drop, List.length_cons, List.length_cons] at hlength
      omega
    have hbehind : knots[if i = knots.length - 2 then knots.length - 1 else i + 2]?
        = some (rest.headD c) := by
      cases rest with
      | nil =>
        rw [hlength, if_pos (by rw [List.length_nil]; omega)]
        exact hget 1
      | cons d rest =>
        rw [hlength, if_neg (by rw [List.length_cons]; omega)]
        exact hget 2
    have hsegment := segment_eq hfull hshows hbefore (hget 0) (hget 1) hbehind
    have hcount : (b :: c :: rest).length - 1 = (c :: rest).length - 1 + 1 := rfl
    rw [hcount, List.range'_succ, List.foldlM_cons, hsegment, Option.bind_eq_bind, Option.bind_some]
    refine ih (hfull.plot ..) ?_ (hget 0)
    rw [← List.drop_drop, hdrop]
    rfl
  | case2 rest before values hshort =>
    cases rest with
    | nil => rfl
    | cons b rest =>
      cases rest with
      | nil => rfl
      | cons c rest => exact absurd rfl (hshort b c rest)

/-! ## Ends and control points -/

theorem fill_ends {first last : Knot} (hfirst : first.x.toNat ≤ values.size)
    (hlast : last.x.toNat ≤ values.size) :
    ∃ filled, fill values 0 first.x.toNat first.y = some filled
      ∧ fill filled last.x.toNat filled.size last.y = some (fillEnds first last values) := by
  refine ⟨_, if_pos ⟨Nat.zero_le _, hfirst⟩, ?_⟩
  rw [fill, Array.size_mapIdx, if_pos ⟨hlast, le_rfl⟩, Option.some.injEq]
  refine Array.ext_getElem? fun i => ?_
  rw [fillEnds, Array.getElem?_mapIdx, Array.getElem?_mapIdx, Array.getElem?_mapIdx, Option.map_map]
  cases hv : values[i]? with
  | none => rfl
  | some v =>
    have hi := (Array.getElem?_eq_some_iff.mp hv).1
    simp [hi]

theorem foldlM_put (hshows : Shows points used knots) (hfull : Full depth values)
    (hknots : ∀ k ∈ knots, k.fits depth) :
    used.foldlM (fun values i => do
      let p ← points[i]?
      put values (index p.x) (level p.y)) values = some (markKnots values knots) := by
  induction used generalizing knots values with
  | nil =>
    cases knots with
    | nil => rfl
    | cons k knots => cases hshows
  | cons slot used ih =>
    cases knots with
    | nil => cases hshows
    | cons k knots =>
      obtain ⟨hpoint, hrest⟩ := List.cons.inj hshows
      rw [List.forall_mem_cons] at hknots
      simp only [List.foldlM_cons, hpoint, Option.bind_eq_bind, Option.bind_some, Knot.point,
        Knot.index_level, Knot.level_level, put_eq (hfull.lt_size hknots.1.1)]
      exact ih hrest (hfull.set _ hknots.1.2) hknots.2

/-! ## Drawing -/

theorem drawn_eq (hshows : Shows points used knots) (hfull : Full depth values)
    (hknots : ∀ k ∈ knots, k.fits depth) :
    drawn depth points used values = some (Curve.drawn depth knots values) := by
  cases knots with
  | nil =>
    rw [List.eq_nil_of_length_eq_zero hshows.length_eq]
    rfl
  | cons first rest =>
    have hlast : (first :: rest)[rest.length]? = some (rest.getLastD first) := by
      rw [List.getLastD_eq_getLast?, ← List.getLast?_cons, List.getLast?_eq_getElem?]
      rfl
    obtain ⟨slot₁, hused₁, hpoint₁⟩ := hshows.get (List.getElem?_cons_zero (a := first))
    obtain ⟨slot₂, hused₂, hpoint₂⟩ := hshows.get hlast
    have hhead : used.head? = some slot₁ := by rw [List.head?_eq_getElem?, hused₁]
    have hgetLast : used.getLast? = some slot₂ := by
      rw [List.getLast?_eq_getElem?, hshows.length_eq]
      exact hused₂
    have hfits₁ := hknots first List.mem_cons_self
    have hfits₂ := hknots _ (List.mem_of_getElem? hlast)
    obtain ⟨filled, hfill₁, hfill₂⟩ :=
      fill_ends (hfull.lt_size hfits₁.1).le (hfull.lt_size hfits₂.1).le
    have hends := hfull.fillEnds hfits₁ hfits₂
    have hsegments := foldlM_segment hshows hends (List.drop_zero ..) (List.getElem?_cons_zero ..)
    have hall := foldlM_put hshows (hends.plotAll first (first :: rest)) hknots
    simp only [drawn, hhead, hgetLast, hpoint₁, hpoint₂, Knot.point, Knot.index_level,
      Knot.level_level, Option.bind_eq_bind, Option.bind_some, hfill₁, hfill₂,
      List.range_eq_range', hshows.length_eq, hsegments]
    exact hall

theorem calculate_eq {c : Curve} (h : c.WellFormed depth) :
    calculate depth c = some (c.calculate depth) := by
  obtain ⟨hfull, hslots⟩ := wellFormed_iff.mp h
  rw [calculate, Curve.calculate]
  cases c.kind with
  | free => rfl
  | smooth =>
    have hshows : Shows c.points (used c.points) c.knots := shows_used c.slots hslots.1
    simp only
    rw [drawn_eq hshows hfull h.fits_knots, Option.map_some]

/-- A point behind the values leads outside. -/
example : calculate .eight ⟨.smooth, [some ⟨3, 0⟩], #[0, 1]⟩ = none := by
  decide

/-! ## Edits that draw -/

variable {source : Depth}

theorem converted_eq {c : Curve} (h : c.WellFormed source) (target : Depth) :
    converted source target c = some (c.converted source target) := by
  rw [converted, Curve.converted]
  split
  · rfl
  · rename_i hne
    exact calculate_eq (h.rescaled hne)

theorem setValues_eq (depth : Depth) (c : Curve) (values : List Point) :
    setValues depth c values = some (c.setValues depth values) := by
  rw [setValues]
  split
  · rfl
  · rename_i hdrawn
    rw [not_or] at hdrawn
    have hstart : ∀ source, ((linear source).setPointsFrom source 0
        (samples source values)).WellFormed source := fun source =>
      (wellFormed_linear source).setPointsFrom ..
    simp only [calculate_eq (hstart _), converted_eq (hstart _).calculate, Option.bind_eq_bind,
      Option.bind_some]
    rw [Curve.setValues, if_neg hdrawn.1, if_neg hdrawn.2]
    rfl

theorem curveOf_eq (kind : CurveKind) (depth : Depth) (points : List Point) :
    curveOf kind depth points = some (Curves.curveOf kind depth points) := by
  cases kind with
  | smooth => exact calculate_eq (((wellFormed_linear depth).withKind .smooth).setPoints points)
  | free => exact setValues_eq ..

end Curve.Checked

/-! ## All channels -/

namespace Curves.Checked

variable {c : Curves}

theorem each_eq {f : Channel → Option Curve} {g : Channel → Curve}
    (h : ∀ channel, f channel = some (g channel)) : each f = some (.ofFn g) := by
  simp only [each, h, Option.bind_eq_bind, Option.bind_some]
  rfl

theorem edit_eq (h : c.WellFormed) (e : Edit) : edit c e = some (c.edit e) := by
  cases e with
  | ofSettings s =>
    rw [edit, each_eq fun channel => Curve.Checked.curveOf_eq ..]
    rfl
  | converted depth =>
    rw [edit, each_eq fun channel => Curve.Checked.converted_eq (h channel) depth]
    rfl
  | setValues channel values =>
    rw [edit, modify, Curve.Checked.setValues_eq]
    rfl
  | calculate channel =>
    rw [edit, modify, Curve.Checked.calculate_eq (h channel)]
    rfl
  | calculateAll =>
    rw [edit, each_eq fun channel => Curve.Checked.calculate_eq (h channel)]
    rfl
  | _ => rfl

theorem edited_eq (depth : Depth) (edits : List Edit) :
    edited depth edits = some (Curves.edited depth edits) := by
  induction edits using List.reverseRecOn with
  | nil => rfl
  | append_singleton edits e ih =>
    rw [edited] at ih ⊢
    rw [List.foldlM_append, ih, edited_concat, Option.bind_eq_bind, Option.bind_some,
      List.foldlM_cons, edit_eq (wellFormed_edited depth edits)]
    rfl

end Curves.Checked

end Darkroom
