import Darkroom.Proofs.Tone.Histogram
import Darkroom.Tone.Curves.Tracing

/-!
# Drawing lays values over a table

To draw a smooth curve is to write some values at some levels, whatever the table held there, and to
leave the other levels alone (`Tracing.overlays_drawn`). That holds along any tracing, since a tracing
does not look at the table, and of the ends and control points as well. So drawing keeps the size of a
table, puts only values into it that are within range, and does nothing when it is done again.

The curves of the library are those along `Tracing.catmullRom` (`Tracing.ofSettings_catmullRom`).
-/

namespace Darkroom

variable {depth : Depth}

theorem toNat_ofNat_level {n : ℕ} (h : n ≤ depth.maxValue) : (UInt16.ofNat n).toNat = n :=
  UInt16.toNat_ofNat_of_lt' (lt_of_le_of_lt h depth.maxValue_lt)

theorem clampNat_le (max : ℕ) (n : ℤ) : Arith.clampNat max n ≤ max :=
  Nat.min_le_right _ _

theorem roundClamp_le {α : Type} [Arith α] (x : α) (max : ℕ) : roundClamp x max ≤ max :=
  clampNat_le max _

namespace Curve

/-! ## Overlays -/

/-- A change of tables that writes some values, all with a property, at some levels, whatever they held,
and keeps the others. -/
def Overlays (p : UInt16 → Prop) (f : Array UInt16 → Array UInt16) : Prop :=
  ∃ written : ℕ → Option UInt16, (∀ i v, written i = some v → p v) ∧
    ∀ values, f values = values.mapIdx fun i old => (written i).getD old

namespace Overlays

variable {p : UInt16 → Prop} {f g : Array UInt16 → Array UInt16}

theorem nothing (p : UInt16 → Prop) : Overlays p fun values => values := by
  refine ⟨fun _ => none, fun i v hv => ?_, fun values => ?_⟩
  · cases hv
  · exact Array.ext_getElem? fun i => by simp

/-- What is written later lies on top. -/
theorem comp (hg : Overlays p g) (hf : Overlays p f) : Overlays p fun values => g (f values) := by
  obtain ⟨above, habove, hg⟩ := hg
  obtain ⟨below, hbelow, hf⟩ := hf
  refine ⟨fun i => (above i).or (below i), fun i v hv => ?_, fun values => ?_⟩
  · rcases Option.or_eq_some_iff.mp hv with hv | ⟨-, hv⟩
    · exact habove i v hv
    · exact hbelow i v hv
  · dsimp only
    rw [hg, hf, Array.mapIdx_mapIdx]
    refine congrArg (values.mapIdx ·) (funext fun i => funext fun old => ?_)
    cases above i <;> rfl

theorem foldl {α : Type} {step : Array UInt16 → α → Array UInt16} (l : List α)
    (h : ∀ a ∈ l, Overlays p (step · a)) : Overlays p fun values => l.foldl step values := by
  induction l with
  | nil => exact nothing p
  | cons a l ih =>
    rw [List.forall_mem_cons] at h
    exact (ih h.2).comp h.1

theorem set (i : ℕ) {v : UInt16} (hv : p v) :
    Overlays p fun values => values.setIfInBounds i v := by
  refine ⟨fun j => if i = j then some v else none, fun j w hw => ?_, fun values => ?_⟩
  · obtain ⟨-, hw⟩ := Option.ite_none_right_eq_some.mp hw
    exact Option.some.inj hw ▸ hv
  · refine Array.ext_getElem? fun j => ?_
    rw [Array.getElem?_setIfInBounds, Array.getElem?_mapIdx]
    by_cases h : i = j
    · subst h
      by_cases hi : i < values.size <;> simp [hi]
    · simp [h]

variable (h : Overlays p f) (values : Array UInt16)
include h

theorem size : (f values).size = values.size := by
  obtain ⟨written, -, hf⟩ := h
  rw [hf, Array.size_mapIdx]

/-- What lies there already is not changed by laying it there again. -/
theorem again : f (f values) = f values := by
  obtain ⟨written, -, hf⟩ := h
  rw [hf, hf, Array.mapIdx_mapIdx]
  refine congrArg (values.mapIdx ·) (funext fun i => funext fun old => ?_)
  cases written i <;> rfl

theorem mem_cases {v : UInt16} (hv : v ∈ f values) : p v ∨ v ∈ values := by
  obtain ⟨written, hwritten, hf⟩ := h
  rw [hf] at hv
  obtain ⟨i, hi, rfl⟩ := Array.mem_mapIdx.mp hv
  cases hat : written i with
  | none => exact .inr (Array.getElem_mem hi)
  | some w => exact .inl (hwritten i w hat)

end Overlays

/-! ## Drawing along a tracing -/

theorem overlays_mark (x : ℕ) {y : ℕ} (hy : y ≤ depth.maxValue) :
    Overlays (·.toNat ≤ depth.maxValue) fun values => mark values x y :=
  .set x (by rwa [toNat_ofNat_level hy])

theorem overlays_fillEnds {first last : Knot} (hfirst : first.y.toNat ≤ depth.maxValue)
    (hlast : last.y.toNat ≤ depth.maxValue) :
    Overlays (·.toNat ≤ depth.maxValue) (fillEnds first last) := by
  refine ⟨fun i => if last.x.toNat ≤ i then some last.y else if i < first.x.toNat then some first.y
    else none, fun i v hv => ?_, fun values => ?_⟩
  · dsimp only at hv
    split at hv
    · exact Option.some.inj hv ▸ hlast
    · obtain ⟨-, hv⟩ := Option.ite_none_right_eq_some.mp hv
      exact Option.some.inj hv ▸ hfirst
  · refine congrArg (values.mapIdx ·) (funext fun i => funext fun old => ?_)
    dsimp only
    split
    · rfl
    · split <;> rfl

theorem overlays_markKnots {knots : List Knot} (h : ∀ k ∈ knots, k.y.toNat ≤ depth.maxValue) :
    Overlays (·.toNat ≤ depth.maxValue) fun values => markKnots values knots :=
  .foldl knots fun k hk => .set k.x.toNat (h k hk)

theorem getLastD_mem (first : Knot) (rest : List Knot) : rest.getLastD first ∈ first :: rest := by
  rw [List.getLastD_eq_getLast?]
  cases hrest : rest.getLast? with
  | none => exact List.mem_cons_self
  | some last => exact List.mem_cons_of_mem _ (List.mem_of_getLast? hrest)

namespace Tracing

theorem overlays_markAll (depth : Depth) (places : List (ℤ × ℤ)) :
    Overlays (·.toNat ≤ depth.maxValue) fun values => markAll depth values places :=
  .foldl places fun _ _ => overlays_mark _ (clampNat_le _ _)

variable (t : Tracing)

theorem overlays_plotAll (before : Knot) (knots : List Knot) :
    Overlays (·.toNat ≤ depth.maxValue) fun values => t.plotAll depth before values knots := by
  induction knots generalizing before with
  | nil => exact .nothing _
  | cons b rest ih =>
    cases rest with
    | nil => exact .nothing _
    | cons c rest => exact (ih b).comp (overlays_markAll depth _)

theorem overlays_drawn {knots : List Knot} (h : ∀ k ∈ knots, k.fits depth) :
    Overlays (·.toNat ≤ depth.maxValue) (t.drawn depth knots) := by
  cases knots with
  | nil => exact .nothing _
  | cons first rest =>
    have hfirst := (h first List.mem_cons_self).2
    have hlast := (h _ (getLastD_mem first rest)).2
    exact (overlays_markKnots fun k hk => (h k hk).2).comp
      ((t.overlays_plotAll first (first :: rest)).comp (overlays_fillEnds hfirst hlast))

/-! ## Catmull-Rom segments -/

theorem markAll_places (depth : Depth) (steps : ℕ) (x y : Cubic) (values : Array UInt16) :
    markAll depth values (Cubic.places steps x y) = follow depth.maxValue steps x y values := by
  induction steps generalizing x y values with
  | zero => rfl
  | succ steps ih => exact ih x.next y.next _

theorem markAll_catmullRom (depth : Depth) (values : Array UInt16) (a b c d : Knot) :
    markAll depth values (catmullRom.places depth a b c d) = plot depth values a b c d :=
  markAll_places depth ..

theorem plotAll_catmullRom (depth : Depth) (before : Knot) (values : Array UInt16)
    (knots : List Knot) :
    catmullRom.plotAll depth before values knots = Curve.plotAll depth before values knots := by
  fun_induction Curve.plotAll depth before values knots with
  | case1 before values b c rest ih => rw [plotAll, markAll_catmullRom, ih]
  | case2 knots before values hshort =>
    unfold plotAll
    split
    · rename_i b c rest
      exact absurd rfl (hshort b c rest)
    · rfl

theorem drawn_catmullRom (depth : Depth) (knots : List Knot) (values : Array UInt16) :
    catmullRom.drawn depth knots values = Curve.drawn depth knots values := by
  cases knots with
  | nil => rfl
  | cons first rest => rw [drawn, Curve.drawn, plotAll_catmullRom]

theorem calculate_catmullRom : catmullRom.calculate = Curve.calculate := by
  funext depth c
  unfold calculate Curve.calculate
  cases c.kind with
  | free => rfl
  | smooth => exact congrArg (Curve.mk _ _) (drawn_catmullRom depth c.knots c.values)

theorem converted_catmullRom : catmullRom.converted = Curve.converted := by
  funext source target c
  rw [converted, Curve.converted, calculate_catmullRom]

theorem sampled_catmullRom : catmullRom.sampled = Curve.sampled := by
  funext depth values
  rw [sampled, Curve.sampled, calculate_catmullRom]

theorem setValues_catmullRom : catmullRom.setValues = Curve.setValues := by
  funext depth c values
  rw [setValues, Curve.setValues, converted_catmullRom, sampled_catmullRom]

theorem curveOf_catmullRom : catmullRom.curveOf = Curves.curveOf := by
  funext kind depth points
  cases kind with
  | smooth => exact congrFun₂ calculate_catmullRom depth _
  | free => exact congrFun₃ setValues_catmullRom depth _ points

theorem ofSettings_catmullRom : catmullRom.ofSettings = Curves.ofSettings := by
  funext s
  rw [ofSettings, Curves.ofSettings, curveOf_catmullRom]

end Tracing

end Curve

end Darkroom
