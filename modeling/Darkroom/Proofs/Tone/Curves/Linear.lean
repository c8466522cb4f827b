import Darkroom.Proofs.Tone.Curves.Settings

/-!
# Which curves that count as linear are

Between control points on the diagonal both coordinates of a segment are the same cubic, so every place
that it comes to is on the diagonal as well, whatever the steps are rounded to, and the table of the
linear curve stays as it is (`Curve.drawn_diagonal`). So a smooth curve with both end points, or with no
control point at all, maps every value to itself. One with the point `(0, 0)` alone counts as linear as
well, but is flat (`Curve.getD_drawn_origin`); and of a free curve the last value is not looked at
(`Curve.value_of_isLinear_free`). `Curves.values_of_isLinear` puts the cases together.
-/

namespace Darkroom

namespace Curve

variable {depth : Depth} {c : Curve}

/-! ## The diagonal -/

theorem getElem?_linear (depth : Depth) (i : ℕ) : (linear depth).values[i]?
    = if i < depth.segments then some (UInt16.ofNat i) else none := by
  rw [linear, Luts.tableOf, Array.getElem?_ofFn]
  split <;> rfl

theorem toNat_getD_linear {i : ℕ} (h : i ≤ depth.maxValue) :
    ((linear depth).values.getD i 0).toNat = i := by
  have hin : i < depth.segments := Nat.lt_succ_of_le h
  rw [Array.getD_eq_getD_getElem?, getElem?_linear, if_pos hin, Option.getD_some,
    toNat_ofNat_level h]

/-- Marking the diagonal where it runs anyway changes nothing. -/
theorem mark_diagonal (depth : Depth) (i : ℕ) :
    mark (linear depth).values i i = (linear depth).values := by
  refine Array.ext_getElem? fun j => ?_
  rw [mark, Array.getElem?_setIfInBounds]
  split
  · rename_i hij
    subst hij
    split
    · rename_i hin
      rw [getElem?_linear, if_pos (by rwa [(wellFormed_linear depth).1] at hin)]
    · rename_i hout
      rw [Array.getElem?_eq_none (not_lt.mp hout)]
  · rfl

/-- A segment with the same cubic in both coordinates runs along the diagonal. -/
theorem follow_diagonal (depth : Depth) (steps : ℕ) (x : Cubic) :
    follow depth.maxValue steps x x (linear depth).values = (linear depth).values := by
  induction steps generalizing x with
  | zero => rfl
  | succ steps ih =>
    rw [follow, mark_diagonal]
    exact ih x.next

theorem plot_diagonal {a b c d : Knot} (ha : a.x = a.y) (hb : b.x = b.y) (hc : c.x = c.y)
    (hd : d.x = d.y) : plot depth (linear depth).values a b c d = (linear depth).values := by
  simp only [plot, ha, hb, hc, hd, mark_diagonal, follow_diagonal]

theorem plotAll_diagonal {before : Knot} {knots : List Knot} (hbefore : before.x = before.y)
    (h : ∀ k ∈ knots, k.x = k.y) :
    plotAll depth before (linear depth).values knots = (linear depth).values := by
  induction knots generalizing before with
  | nil => rfl
  | cons b rest ih =>
    cases rest with
    | nil => rfl
    | cons c rest =>
      rw [List.forall_mem_cons] at h
      have hc := h.2 c List.mem_cons_self
      have hd : (rest.headD c).x = (rest.headD c).y := by
        cases rest with
        | nil => exact hc
        | cons d rest => exact h.2 d (List.mem_cons_of_mem _ List.mem_cons_self)
      rw [plotAll, plot_diagonal hbefore h.1 hc hd]
      exact ih h.1 h.2

theorem markKnots_diagonal {knots : List Knot} (h : ∀ k ∈ knots, k.x = k.y) :
    markKnots (linear depth).values knots = (linear depth).values := by
  induction knots with
  | nil => rfl
  | cons k rest ih =>
    rw [List.forall_mem_cons] at h
    have hk : k.y = UInt16.ofNat k.x.toNat := by rw [UInt16.ofNat_toNat, h.1]
    have hmark : (linear depth).values.setIfInBounds k.x.toNat k.y = (linear depth).values := by
      rw [hk]
      exact mark_diagonal depth k.x.toNat
    rw [markKnots, List.foldl_cons, hmark]
    exact ih h.2

/-- The ends of the diagonal have nothing before and behind them. -/
theorem fillEnds_diagonal {first last : Knot} (hfirst : first.x = 0)
    (hlast : last.x.toNat = depth.maxValue) (hdiagonal : last.x = last.y) :
    fillEnds first last (linear depth).values = (linear depth).values := by
  refine Array.ext_getElem? fun i => ?_
  rw [fillEnds, Array.getElem?_mapIdx, getElem?_linear]
  by_cases hi : i < depth.segments
  · have hle : i ≤ depth.maxValue := Nat.le_of_lt_succ hi
    have hbefore : ¬i < first.x.toNat := by
      rw [hfirst]
      exact Nat.not_lt_zero i
    rw [if_pos hi, Option.map_some, hlast, if_neg hbefore]
    by_cases hend : depth.maxValue ≤ i
    · have hvalue : last.y = UInt16.ofNat i := by
        rw [← hdiagonal, ← Nat.le_antisymm hend hle, ← hlast, UInt16.ofNat_toNat]
      rw [if_pos hend, hvalue]
    · rw [if_neg hend]
  · rw [if_neg hi, Option.map_none]

/-- A curve through points of the diagonal, both of its ends among them, is the diagonal. -/
theorem drawn_diagonal {first : Knot} {rest : List Knot} (hfirst : first.x = 0)
    (hlast : (rest.getLastD first).x.toNat = depth.maxValue)
    (h : ∀ k ∈ first :: rest, k.x = k.y) :
    drawn depth (first :: rest) (linear depth).values = (linear depth).values := by
  rw [drawn, fillEnds_diagonal hfirst hlast (h _ (getLastD_mem first rest)),
    plotAll_diagonal (h first List.mem_cons_self) h, markKnots_diagonal h]

theorem drawn_ends (depth : Depth) : drawn depth
    [⟨0, 0⟩, ⟨UInt16.ofNat depth.maxValue, UInt16.ofNat depth.maxValue⟩] (linear depth).values
      = (linear depth).values := by
  have hlast : (UInt16.ofNat depth.maxValue).toNat = depth.maxValue := toNat_ofNat_level le_rfl
  refine drawn_diagonal rfl hlast fun k hk => ?_
  rcases List.mem_cons.mp hk with rfl | hk
  · rfl
  · obtain rfl := List.mem_singleton.mp hk
    rfl

/-! ## Curves that count as linear -/

/-- With the point `(0, 0)` alone a curve is flat. -/
theorem getD_drawn_origin (depth : Depth) (values : Array UInt16) (i : ℕ) :
    (drawn depth [⟨0, 0⟩] values).getD i 0 = 0 := by
  have hflat : fillEnds ⟨0, 0⟩ ⟨0, 0⟩ values = values.map fun _ => 0 := by
    refine Array.ext_getElem? fun i => ?_
    rw [fillEnds, Array.getElem?_mapIdx, Array.getElem?_map]
    rfl
  have hdrawn : drawn depth [⟨0, 0⟩] values = (values.map fun _ => 0).setIfInBounds 0 0 :=
    congrArg (·.setIfInBounds 0 0) hflat
  rw [hdrawn, Array.getD_eq_getD_getElem?, Array.getElem?_setIfInBounds, Array.getElem?_map]
  split
  · split <;> rfl
  · cases values[i]? <;> rfl

/-- What the test on control points lets through. -/
theorem onlyEnds_cases {max : UInt16} {knots : List Knot} (h : onlyEnds max knots = true) :
    knots = [] ∨ knots = [⟨0, 0⟩] ∨ knots = [⟨0, 0⟩, ⟨max, max⟩] := by
  fun_cases onlyEnds max knots with
  | case1 => exact .inl rfl
  | case2 first => exact .inr (.inl (by simpa [onlyEnds] using h))
  | case3 first last => exact .inr (.inr (by simpa [onlyEnds] using h))
  | case4 knots hnone hone htwo => simp [onlyEnds] at h

/-- A smooth curve that settings describe is drawn on the table of the linear curve. -/
theorem Tracing.values_curveOf_smooth (t : Tracing) (depth : Depth) (points : List Point) :
    (t.curveOf .smooth depth points).values
      = t.drawn depth (t.curveOf .smooth depth points).knots (linear depth).values := by
  obtain ⟨hvalues, hkind⟩ := setPoints_fields (c := linear depth) rfl points
  have hknots : (t.curveOf .smooth depth points).knots
      = ((linear depth).setPoints depth points).knots :=
    congrArg (List.filterMap id) (t.slots_calculate _)
  rw [hknots, ← hvalues]
  exact t.values_calculate_of_smooth hkind

/-- A smooth curve that counts as linear has the point `(0, 0)` alone, and is flat, or it is the
diagonal. -/
theorem value_of_isLinear_smooth {points : List Point}
    (h : (Curves.curveOf .smooth depth points).isLinear depth = true) {i : ℕ}
    (hi : i ≤ depth.maxValue) : ((Curves.curveOf .smooth depth points).value i).toNat
      = if (Curves.curveOf .smooth depth points).knots = [⟨0, 0⟩] then 0 else i := by
  have hkind := Tracing.catmullRom.kind_curveOf .smooth depth points
  have hvalues := Tracing.catmullRom.values_curveOf_smooth depth points
  rw [Tracing.curveOf_catmullRom] at hkind hvalues
  rw [Tracing.drawn_catmullRom] at hvalues
  rw [isLinear, hkind] at h
  rw [value, hvalues]
  rcases onlyEnds_cases h with hknots | hknots | hknots
  · rw [hknots]
    exact toNat_getD_linear hi
  · rw [hknots, getD_drawn_origin]
    rfl
  · have hdrawn := drawn_ends depth
    rw [← hknots] at hdrawn
    rw [hdrawn, hknots, if_neg (by simp)]
    exact toNat_getD_linear hi

/-- The values of a free curve that counts as linear are the levels, but for the last. -/
theorem value_of_isLinear_free (hfull : Full depth c.values) (hkind : c.kind = .free)
    (h : c.isLinear depth = true) {i : ℕ} (hi : i < depth.maxValue) : (c.value i).toNat = i := by
  rw [isLinear, hkind] at h
  have hin : i < c.values.size := hfull.lt_size hi.le
  have hmem : (c.values[i], i) ∈ (c.values.toList.take depth.maxValue).zipIdx := by
    rw [List.mem_zipIdx_iff_getElem?, List.getElem?_take_of_lt hi, Array.getElem?_toList,
      Array.getElem?_eq_getElem hin]
  rw [value, Array.getD_eq_getD_getElem?, Array.getElem?_eq_getElem hin]
  exact of_decide_eq_true (List.all_eq_true.mp h _ hmem)

end Curve

/-! ## All channels -/

namespace Curves

/-- Of curves that settings describe, a channel that counts as linear maps every value to itself, but for
two cases: a smooth curve with the point `(0, 0)` alone, which is flat, and a free curve whose last value
is another. -/
theorem values_of_isLinear (s : Settings) (channel : Channel)
    (h : ((ofSettings s).channels.get channel).isLinear s.depth = true) :
    let c := (ofSettings s).channels.get channel
    (s.kind = .smooth →
      ∀ bin ≤ s.depth.maxValue, (c.value bin).toNat = if c.knots = [⟨0, 0⟩] then 0 else bin) ∧
    (s.kind = .free → ∀ bin < s.depth.maxValue, (c.value bin).toNat = bin) ∧
    ((∀ bin ≤ s.depth.maxValue, (c.value bin).toNat = bin) ↔
      (s.kind = .smooth → c.knots ≠ [⟨0, 0⟩]) ∧
      (s.kind = .free → (c.value s.depth.maxValue).toNat = s.depth.maxValue)) := by
  intro c
  have hc : c = curveOf s.kind s.depth (s.lists.get channel) := PerChannel.get_map ..
  have hmax : 0 < s.depth.maxValue := by cases s.depth <;> decide
  have hsmooth : s.kind = .smooth →
      ∀ bin ≤ s.depth.maxValue, (c.value bin).toNat = if c.knots = [⟨0, 0⟩] then 0 else bin := by
    intro hkind bin hbin
    rw [hkind] at hc
    have hlinear : c.isLinear s.depth = true := h
    rw [hc] at hlinear ⊢
    exact Curve.value_of_isLinear_smooth hlinear hbin
  have hfree : s.kind = .free → ∀ bin < s.depth.maxValue, (c.value bin).toNat = bin := by
    intro hkind bin hbin
    have hfull := (Curve.wellFormed_iff.mp (wellFormed_ofSettings s channel)).1
    have hfreeCurve : c.kind = .free := by
      rw [hc, ← Curve.Tracing.curveOf_catmullRom, Curve.Tracing.kind_curveOf, hkind]
    exact Curve.value_of_isLinear_free hfull hfreeCurve h hbin
  refine ⟨hsmooth, hfree, fun hall => ⟨fun hkind hknots => ?_, fun _ => hall _ le_rfl⟩,
    fun ⟨hpoint, hlast⟩ bin hbin => ?_⟩
  · have hflat := hsmooth hkind s.depth.maxValue le_rfl
    rw [if_pos hknots, hall _ le_rfl] at hflat
    omega
  · cases hkind : s.kind with
    | smooth => rw [hsmooth hkind bin hbin, if_neg (hpoint hkind)]
    | free =>
      rcases Nat.lt_or_eq_of_le hbin with hlt | rfl
      · exact hfree hkind bin hlt
      · exact hlast hkind

/-- Settings that leave the luminosity the point `(0, 0)` alone. The curve is drawn level through
it, so it maps every value to zero. -/
def blackOnly : Settings :=
  ⟨.smooth, .eight, (PerChannel.ofFn fun _ => []).set .luminosity
    (⟨0, 0⟩ :: List.replicate 16 Curve.emptyPoint)⟩

/-- The luminosity counts as linear and makes white black; red, which is the diagonal, keeps it. -/
theorem values_of_isLinear_blackOnly :
    ((ofSettings blackOnly).channels.get .luminosity).isLinear .eight = true
      ∧ (((ofSettings blackOnly).channels.get .luminosity).value 255).toNat = 0
      ∧ ((ofSettings blackOnly).channels.get .red).isLinear .eight = true
      ∧ (((ofSettings blackOnly).channels.get .red).value 255).toNat = 255 := by
  have hluminosity : ((ofSettings blackOnly).channels.get .luminosity).isLinear .eight = true := by
    decide
  have hred : ((ofSettings blackOnly).channels.get .red).isLinear .eight = true := by decide
  have hflat := (values_of_isLinear blackOnly .luminosity hluminosity).1 rfl 255 le_rfl
  have hdiagonal := (values_of_isLinear blackOnly .red hred).1 rfl 255 le_rfl
  exact ⟨hluminosity, hflat.trans (by decide), hred, hdiagonal.trans (by decide)⟩

end Curves

end Darkroom
