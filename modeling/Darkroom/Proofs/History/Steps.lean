import Darkroom.History.Replay

/-!
# What a replay accounts for

A step looks at the image of the replay only, and adds to the rest: the number of actions behind it,
the number of those that were applied, and the issues. So a replay from any point is the point put in
front of a fresh replay on its image (`finish_eq_after`), which is why histories can be replayed part
by part. `effect_cases` says once what a step can do to an image; that steps which are not applied
leave it alone, and which steps leave an issue, is read off it.
-/

namespace Darkroom

namespace Replay

variable {registry : Registry} {image : Image} {a : Action}

/-! ## Steps -/

/-- What a step can do: leave the image and say why, or put another image in its place, which leaves an
issue for complex actions only. -/
theorem effect_cases (registry : Registry) (image : Image) (a : Action) :
    (∃ status reason, effect registry image a = (status, some reason, image) ∧ status ≠ .applied)
      ∨ ∃ new, effect registry image a = (.applied,
          if a.category = .complex then some (.notReproducible .complex) else none, new) := by
  unfold effect
  split
  · exact .inl ⟨_, _, rfl, by decide⟩
  · split
    · exact .inl ⟨_, _, rfl, by decide⟩
    · split
      · exact .inl ⟨_, _, rfl, by decide⟩
      · split
        · exact .inl ⟨_, _, rfl, by decide⟩
        · refine .inr ⟨_, Prod.ext rfl (Prod.ext ?_ rfl)⟩
          dsimp only
          split
          · rename_i hcomplex
            rw [hcomplex]
          · rfl

theorem image_of_not_applied (h : (effect registry image a).1 ≠ .applied) :
    (effect registry image a).2.2 = image := by
  rcases effect_cases registry image a with ⟨status, reason, heffect, -⟩ | ⟨new, heffect⟩
  · rw [heffect]
  · rw [heffect] at h
    exact absurd rfl h

theorem isSome_issue_iff : (effect registry image a).2.1.isSome
    ↔ (effect registry image a).1 ≠ .applied ∨ a.category = .complex := by
  rcases effect_cases registry image a with ⟨status, reason, heffect, hstatus⟩ | ⟨new, heffect⟩
  · rw [heffect]
    exact ⟨fun _ => .inl hstatus, fun _ => rfl⟩
  · rw [heffect]
    by_cases hcomplex : a.category = .complex <;> simp [hcomplex]

def passesOver (registry : Registry) (a : Action) : Bool :=
  a.category = .documented || !registry.isSupported a.identifier a.version

theorem effect_of_passesOver (h : passesOver registry a) (image : Image) :
    (effect registry image a).1 = .skipped := by
  unfold effect
  cases hcreate : registry.create? a with
  | none => rfl
  | some filter =>
      have hsupported : registry.isSupported a.identifier a.version := by
        have hmap : (registry.create? a).isSome := by rw [hcreate]; rfl
        rwa [Registry.create?, Option.isSome_map] at hmap
      have hdocumented : a.category = .documented := by
        simpa [passesOver, hsupported] using h
      simp only
      rw [if_pos hdocumented]

def noted (s : ReplayStep) : Option ReplayIssue :=
  s.issue.map fun reason => ⟨s.index, s.identifier, s.version, reason⟩

theorem step_eq (registry : Registry) (r : Replay) (a : Action) :
    step registry r a =
      (⟨r.index, a.identifier, a.version, (effect registry r.image a).1,
          (effect registry r.image a).2.1⟩,
        ⟨r.index + 1, (effect registry r.image a).2.2,
          r.applied + (if (effect registry r.image a).1 = .applied then 1 else 0),
          r.issues ++ (noted ⟨r.index, a.identifier, a.version,
            (effect registry r.image a).1, (effect registry r.image a).2.1⟩).toList⟩) := by
  rw [step, noted, Option.toList_map]
  refine Prod.ext rfl ?_
  dsimp only
  congr 1
  split <;> rfl

/-! ## Part by part -/

/-- A replay that went on where another one stood. It is what a history gives that is replayed in
two parts: the issues of the second part are cited by their place in the whole. -/
def after (first second : Replay) : Replay where
  index := first.index + second.index
  image := second.image
  applied := first.applied + second.applied
  issues := first.issues ++ second.issues.map fun issue =>
    { issue with index := first.index + issue.index }

theorem after_start (r : Replay) : after r (start r.image) = r := by
  simp [after, start]

theorem step_after (registry : Registry) (first second : Replay) (a : Action) :
    (step registry (after first second) a).2 = after first (step registry second a).2 := by
  rw [step_eq, step_eq]
  simp only [after, noted, Option.toList_map, List.map_append, List.map_map,
    List.append_assoc]
  congr 1
  exact Nat.add_assoc _ _ _

theorem foldl_after (registry : Registry) (first : Replay) : ∀ (h : History) (second : Replay),
    finish registry (after first second) h = after first (finish registry second h)
  | [], _ => rfl
  | a :: h, second => by
      rw [finish, List.foldl_cons, step_after, ← finish, foldl_after registry first h]
      rfl

/-- From any point on, a replay is a fresh one on the image reached there. -/
theorem finish_eq_after (registry : Registry) (r : Replay) (h : History) :
    finish registry r h = after r (run registry r.image h) := by
  rw [run, ← foldl_after, after_start]

theorem run_append (registry : Registry) (base : Image) (first second : History) :
    run registry base (first ++ second)
      = after (run registry base first)
          (run registry (run registry base first).image second) := by
  rw [← finish_eq_after]
  exact List.foldl_append

theorem index_finish (registry : Registry) : ∀ (h : History) (r : Replay),
    (finish registry r h).index = r.index + h.length
  | [], _ => rfl
  | a :: h, r => by
      rw [finish, List.foldl_cons, ← finish, index_finish registry h, step_eq, List.length_cons]
      dsimp only
      omega

theorem index_run (registry : Registry) (base : Image) (h : History) :
    (run registry base h).index = h.length := by
  rw [run, index_finish]
  exact Nat.zero_add _

/-! ## The steps of a history -/

theorem step_run_take (registry : Registry) (base : Image) {h : History} {i : Nat} {a : Action}
    (ha : h[i]? = some a) :
    (step registry (run registry base (h.take i)) a).2 = run registry base (h.take (i + 1)) := by
  rw [List.take_add_one, ha, run, run, finish, finish, List.foldl_append]
  rfl

theorem getElem?_trace (registry : Registry) : ∀ (h : History) (r : Replay) (i : Nat),
    (trace registry r h)[i]? = h[i]?.map (step registry (finish registry r (h.take i)))
  | [], _, _ => rfl
  | a :: h, r, 0 => rfl
  | a :: h, r, i + 1 => by
      rw [trace]
      exact getElem?_trace registry h _ i

/-- The number of applied steps, and the issues, are those of the steps. -/
theorem finish_eq_trace (registry : Registry) : ∀ (h : History) (r : Replay),
    (finish registry r h).applied
        = r.applied + (trace registry r h).countP (fun s => s.1.status = .applied)
      ∧ (finish registry r h).issues
        = r.issues ++ (trace registry r h).filterMap (noted ·.1)
  | [], r => ⟨rfl, (List.append_nil _).symm⟩
  | a :: h, r => by
      obtain ⟨happlied, hissues⟩ := finish_eq_trace registry h (step registry r a).2
      rw [finish, List.foldl_cons, ← finish, trace, happlied, hissues]
      refine ⟨?_, ?_⟩
      · rw [List.countP_cons, step_eq]
        simp only [decide_eq_true_eq]
        omega
      · rw [List.filterMap_cons, step_eq]
        dsimp only
        cases noted ⟨r.index, a.identifier, a.version, (effect registry r.image a).1,
          (effect registry r.image a).2.1⟩ with
        | none => simp
        | some issue => simp

theorem header_trace (registry : Registry) : ∀ (h : History) (r : Replay),
    (trace registry r h).map (fun s => (s.1.index, s.1.identifier, s.1.version))
      = h.mapIdx fun i a => (r.index + i, a.identifier, a.version)
  | [], _ => rfl
  | a :: h, r => by
      have hnext : (step registry r a).2.index = r.index + 1 := by rw [step_eq]
      rw [trace, List.map_cons, header_trace registry h, List.mapIdx_cons, hnext, step_eq]
      simp only [Nat.add_zero, Nat.add_assoc, Nat.add_comm 1]

/-- Each issue stands behind the ones before it. -/
theorem pairwise_issues (registry : Registry) : ∀ (h : History) (r : Replay),
    (∀ s ∈ trace registry r h, r.index ≤ s.1.index)
      ∧ ((trace registry r h).filterMap (noted ·.1)).Pairwise (fun a b => a.index < b.index)
  | [], _ => ⟨fun _ h => (List.not_mem_nil h).elim, .nil⟩
  | a :: h, r => by
      obtain ⟨hlater, hpairwise⟩ := pairwise_issues registry h (step registry r a).2
      have hnext : (step registry r a).2.index = r.index + 1 := by rw [step_eq]
      have hhere : (step registry r a).1.index = r.index := by rw [step_eq]
      rw [hnext] at hlater
      rw [trace]
      refine ⟨fun s hs => ?_, ?_⟩
      · rcases List.mem_cons.mp hs with rfl | hs
        · exact Nat.le_of_eq hhere.symm
        · exact Nat.le_of_succ_le (hlater s hs)
      · rw [List.filterMap_cons]
        dsimp only
        cases hnoted : noted (step registry r a).1 with
        | none => exact hpairwise
        | some issue =>
            refine List.pairwise_cons.mpr ⟨fun other hother => ?_, hpairwise⟩
            have hindex : ∀ {s : ReplayStep} {i : ReplayIssue}, noted s = some i →
                i.index = s.index := by
              intro s i hs
              obtain ⟨reason, -, rfl⟩ := Option.map_eq_some_iff.mp hs
              rfl
            obtain ⟨s, hs, hsome⟩ := List.mem_filterMap.mp hother
            rw [hindex hnoted, hindex hsome, hhere]
            exact hlater s hs

/-! ## Passing over -/

/-- Actions that are passed over can be left out: neither the image nor the number of applied actions
changes. The two replays do not agree on the rest, as their positions differ. -/
theorem finish_filter (registry : Registry) : ∀ (h : History) {r r' : Replay},
    r'.image = r.image → r'.applied = r.applied →
      (finish registry r' (h.filter (!passesOver registry ·))).image = (finish registry r h).image
        ∧ (finish registry r' (h.filter (!passesOver registry ·))).applied
          = (finish registry r h).applied
  | [], _, _, himage, happlied => ⟨himage, happlied⟩
  | a :: h, r, r', himage, happlied => by
      have hstep : finish registry r (a :: h) = finish registry (step registry r a).2 h := rfl
      rw [hstep, List.filter_cons]
      cases hpasses : passesOver registry a with
      | true =>
          have hskipped := effect_of_passesOver hpasses r.image
          have hsame : (effect registry r.image a).2.2 = r.image :=
            image_of_not_applied (by rw [hskipped]; decide)
          refine finish_filter registry h ?_ ?_
          · rw [step_eq, himage]
            exact hsame.symm
          · rw [step_eq, happlied, hskipped]
            rfl
      | false =>
          have hstep' : finish registry r' (a :: h.filter (!passesOver registry ·))
            = finish registry (step registry r' a).2 (h.filter (!passesOver registry ·)) := rfl
          rw [Bool.not_false, if_pos rfl, hstep']
          refine finish_filter registry h ?_ ?_
          · rw [step_eq, step_eq, himage]
          · rw [step_eq, step_eq, himage, happlied]

/-! ## One step at a time -/

namespace Steps

/-- Asking for steps takes actions from the rest until there are none left. -/
theorem advance_eq (registry : Registry) : ∀ (n : Nat) (s : Steps),
    s.advance registry n = ⟨Replay.finish registry s.reached (s.rest.take n), s.rest.drop n⟩
  | 0, _ => rfl
  | _ + 1, ⟨_, []⟩ => rfl
  | n + 1, ⟨r, a :: rest⟩ => advance_eq registry n ⟨(step registry r a).2, rest⟩

theorem finish_eq (registry : Registry) (s : Steps) :
    s.finish registry = Replay.finish registry s.reached s.rest := by
  rw [finish, advance_eq, List.take_length]

/-- What is given out when steps were asked for a number of times. -/
theorem next?_advance (registry : Registry) (base : Image) (h : History) (n : Nat) :
    (((start base h).advance registry n).next? registry).map (·.1)
      = (trace registry (.start base) h)[n]?.map (·.1) := by
  rw [advance_eq, getElem?_trace, next?]
  cases hrest : h.drop n with
  | nil =>
      rw [List.getElem?_eq_none (List.drop_eq_nil_iff.mp hrest)]
      simp only [start, hrest, Option.map_none]
  | cons a rest =>
      have ha : h[n]? = some a := by
        rw [← List.head?_drop, hrest]
        rfl
      simp only [start, hrest, ha, Option.map_some]

end Steps

/-! ## The account -/

/-- What the steps of a history on an image, the outcome, and what was recorded have to do with each
other. -/
structure Accounted (registry : Registry) (base : Image) (h : History) : Prop where
  /-- There is one step for each action, with its position. -/
  headers : (trace registry (start base) h).map (fun s => (s.1.index, s.1.identifier, s.1.version))
    = h.mapIdx fun i a => (i, a.identifier, a.version)
  /-- They are what is given out, one after the other, when steps are asked for. -/
  given : ∀ n, (((Steps.start base h).advance registry n).next? registry).map (·.1)
    = (trace registry (start base) h)[n]?.map (·.1)
  /-- Behind a step the replay stands where that of the actions so far ends. -/
  reached : ∀ {i : Nat} {s : ReplayStep × Replay}, (trace registry (start base) h)[i]? = some s →
    s.2 = run registry base (h.take (i + 1))
  unchanged : ∀ {i : Nat} {s : ReplayStep × Replay},
    (trace registry (start base) h)[i]? = some s → s.1.status ≠ .applied →
    s.2.image = (run registry base (h.take i)).image
  applied : (run registry base h).applied
    = (trace registry (start base) h).countP fun s => s.1.status = .applied
  issue_iff : ∀ {i : Nat} {a : Action} {s : ReplayStep × Replay}, h[i]? = some a →
    (trace registry (start base) h)[i]? = some s →
    (s.1.issue.isSome ↔ s.1.status ≠ .applied ∨ a.category = .complex)
  issues : (run registry base h).issues
    = (trace registry (start base) h).filterMap fun s =>
        s.1.issue.map fun reason => ⟨s.1.index, s.1.identifier, s.1.version, reason⟩
  increasing : (run registry base h).issues.Pairwise fun a b => a.index < b.index

theorem accounted (registry : Registry) (base : Image) (h : History) :
    Accounted registry base h := by
  obtain ⟨happlied, hissues⟩ := finish_eq_trace registry h (start base)
  have hstep : ∀ {i : Nat} {s : ReplayStep × Replay},
      (trace registry (start base) h)[i]? = some s →
      ∃ a, h[i]? = some a ∧ s = step registry (run registry base (h.take i)) a := by
    intro i s hs
    rw [getElem?_trace] at hs
    obtain ⟨a, ha, rfl⟩ := Option.map_eq_some_iff.mp hs
    exact ⟨a, ha, rfl⟩
  refine ⟨?_, Steps.next?_advance registry base h, ?_, ?_, ?_, ?_, hissues, ?_⟩
  · rw [header_trace]
    simp only [start, Nat.zero_add]
  · intro i s hs
    obtain ⟨a, ha, rfl⟩ := hstep hs
    exact step_run_take registry base ha
  · intro i s hs hstatus
    obtain ⟨a, ha, rfl⟩ := hstep hs
    rw [step_eq] at hstatus ⊢
    exact image_of_not_applied hstatus
  · rw [run, happlied]
    exact Nat.zero_add _
  · intro i a s ha hs
    obtain ⟨a', ha', rfl⟩ := hstep hs
    rw [ha, Option.some.injEq] at ha'
    rw [step_eq, ← ha']
    exact isSome_issue_iff
  · rw [run, hissues]
    exact (pairwise_issues registry h (start base)).2

/-- Every action is accounted for by one step. A history in two parts is replayed part by part; actions
that only document something or are not supported may be left out; and a replay that is finished after
any number of steps has the same outcome. -/
theorem replay_by_steps (registry : Registry) (base : Image) (h : History) :
    Accounted registry base h
      ∧ (∀ second, run registry base (h ++ second)
        = { index := h.length + second.length
            image := (run registry (run registry base h).image second).image
            applied := (run registry base h).applied
              + (run registry (run registry base h).image second).applied
            issues := (run registry base h).issues
              ++ (run registry (run registry base h).image second).issues.map fun issue =>
                { issue with index := h.length + issue.index } })
      ∧ (let kept := h.filter fun a =>
          a.category ≠ .documented && registry.isSupported a.identifier a.version
        (run registry base kept).image = (run registry base h).image
          ∧ (run registry base kept).applied = (run registry base h).applied)
      ∧ ∀ n, ((Steps.start base h).advance registry n).finish registry = run registry base h := by
  refine ⟨accounted registry base h, fun second => ?_, ?_, fun n => ?_⟩
  · rw [run_append, after, index_run, index_run]
  · have hkept : (fun a : Action =>
        a.category ≠ .documented && registry.isSupported a.identifier a.version)
        = (!passesOver registry ·) := by
      funext a
      simp [passesOver]
    rw [hkept]
    exact finish_filter registry h rfl rfl
  · rw [Steps.finish_eq, Steps.advance_eq]
    show List.foldl _ (List.foldl _ _ (h.take n)) (h.drop n) = _
    rw [← List.foldl_append, List.take_append_drop]
    rfl

end Replay

end Darkroom
