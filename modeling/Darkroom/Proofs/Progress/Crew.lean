import Darkroom.Progress.Crew

/-!
# No report is lost

The stored value and what the observer was told last are changed one after the other, and other
workers may come between. What holds at every moment (`Orderly`) ties the two together through the
workers that have raised the value and not told it yet: the stored value was told last, or one of
them is about to tell it. When all reports are complete nobody is about to tell anything, so the
stored value was told (`no_report_lost`).
-/

namespace Darkroom

/-! ## Exchanging one member of a list -/

section

variable {α : Type} {l : List α} {i : Nat} {old new : α}

theorem mem_set_new (hold : l[i]? = some old) : new ∈ l.set i new :=
  List.mem_set (List.getElem?_eq_some_iff.mp hold).1 new

/-- What holds of some member still does, unless it was the one exchanged. -/
theorem exists_mem_set {P : α → Prop} (hold : l[i]? = some old) (h : ∃ a ∈ l, P a) :
    P old ∨ ∃ a ∈ l.set i new, P a := by
  obtain ⟨a, ha, hP⟩ := h
  obtain ⟨j, hj⟩ := List.mem_iff_getElem?.mp ha
  by_cases hij : i = j
  · subst hij
    obtain rfl := Option.some.inj (hold.symm.trans hj)
    exact Or.inl hP
  · refine Or.inr ⟨a, List.mem_iff_getElem?.mpr ⟨j, ?_⟩, hP⟩
    rw [List.getElem?_set_ne hij, hj]

end

namespace Progress

/-! ## One part of a report -/

theorem announce_cases (p : Progress) (percent : Nat) :
    (min percent 100 ≤ p.value ∧ p.announce percent = (p, none))
      ∨ (p.value < min percent 100
        ∧ p.announce percent = (p.raise (min percent 100), some (min percent 100))) := by
  unfold announce
  by_cases h : min percent 100 ≤ p.value
  · exact Or.inl ⟨h, by rw [if_pos h]⟩
  · exact Or.inr ⟨Nat.lt_of_not_le h, by rw [if_neg h]⟩

/-- A report that nobody interrupts. -/
theorem post_eq_announce (p : Progress) (percent : Nat) :
    p.post percent = match p.announce percent with
      | (p, none) => p
      | (p, some v) => p.deliver v := by
  unfold post announce
  by_cases h : min percent 100 ≤ p.value
  · simp only [if_pos h]
  · simp only [if_neg h]

theorem deliver_cases {p : Progress} {o : Observer} (ho : p.observer = some o) (percent : Nat) :
    (percent ≤ p.delivered ∧ p.deliver percent = p)
      ∨ (p.delivered < percent ∧ (p.deliver percent).delivered = percent
        ∧ (p.deliver percent).observer = some { o with heard := percent :: o.heard }) := by
  unfold deliver
  by_cases h : percent ≤ p.delivered
  · exact Or.inl ⟨h, by simp only [ho, if_pos h]⟩
  · refine Or.inr ⟨Nat.lt_of_not_le h, ?_⟩
    simp only [ho, if_neg h, and_self]

@[simp]
theorem value_deliver (p : Progress) (percent : Nat) : (p.deliver percent).value = p.value := by
  unfold deliver
  repeat' split
  all_goals rfl

theorem value_le_announce (p : Progress) (percent : Nat) :
    p.value ≤ (p.announce percent).1.value := by
  rcases announce_cases p percent with ⟨-, h⟩ | ⟨-, h⟩
  · exact Nat.le_of_eq (congrArg (fun told => told.1.value) h).symm
  · exact Nat.le_trans (Nat.le_max_left _ _)
      (Nat.le_of_eq (congrArg (fun told => told.1.value) h).symm)

/-! ## One step of a crew -/

namespace Crew

theorem step_cases (c : Crew) (i : Nat) :
    c.step i = c
      ∨ (∃ percent rest, c.workers[i]? = some ⟨percent :: rest, none⟩
        ∧ c.step i = ⟨c.workers.set i ⟨rest, (c.progress.announce percent).2⟩,
          (c.progress.announce percent).1⟩)
      ∨ (∃ percent rest, c.workers[i]? = some ⟨rest, some percent⟩
        ∧ c.step i = ⟨c.workers.set i ⟨rest, none⟩, c.progress.deliver percent⟩) := by
  unfold step
  cases hw : c.workers[i]? with
  | none => exact Or.inl rfl
  | some w =>
      obtain ⟨reports, pending⟩ := w
      cases pending with
      | some percent => exact Or.inr (Or.inr ⟨percent, reports, rfl, rfl⟩)
      | none =>
          cases reports with
          | cons percent rest => exact Or.inr (Or.inl ⟨percent, rest, rfl, rfl⟩)
          | nil =>
              left
              obtain ⟨hi, hget⟩ := List.getElem?_eq_some_iff.mp hw
              simp only [Worker.step, ← hget, List.set_getElem_self]

theorem value_le_step (c : Crew) (i : Nat) : c.progress.value ≤ (c.step i).progress.value := by
  have hcases := c.step_cases i
  generalize c.step i = next at hcases ⊢
  rcases hcases with rfl | ⟨percent, rest, -, rfl⟩ | ⟨percent, rest, -, rfl⟩
  · exact Nat.le_refl _
  · exact value_le_announce _ _
  · exact Nat.le_of_eq (value_deliver _ _).symm

/-! ## What holds at every moment -/

/-- What all reports of a crew have in common with its progress, where `posted` are all percentages
that it was given. -/
structure Orderly (posted : List Nat) (c : Crew) : Prop where
  /-- The observer was told larger and larger values, of which the last one is remembered. -/
  heard : ∃ o, c.progress.observer = some o ∧ o.heard.Pairwise (· > ·)
    ∧ c.progress.delivered = o.heard.headD 0
  delivered : c.progress.delivered ≤ c.progress.value
  pending : ∀ w ∈ c.workers, ∀ v, w.pending = some v → v ≤ c.progress.value
  /-- The stored value is not lost: somebody has told it or is about to. -/
  kept : c.progress.value = c.progress.delivered ∨ ∃ w ∈ c.workers, w.pending = some c.progress.value
  given : ∀ w ∈ c.workers, ∀ r ∈ w.reports, r ∈ posted
  reached : ∀ r ∈ posted, min r 100 ≤ c.progress.value ∨ ∃ w ∈ c.workers, r ∈ w.reports
  posted : c.progress.value = 0 ∨ ∃ r ∈ posted, c.progress.value = min r 100

theorem orderly_start (reports : List (List Nat)) (cancelFrom : Option Nat) :
    Orderly reports.flatten (start reports (.observed cancelFrom)) where
  heard := ⟨⟨[], cancelFrom⟩, rfl, List.Pairwise.nil, rfl⟩
  delivered := Nat.le_refl _
  pending := by
    intro w hw v hv
    obtain ⟨r, -, rfl⟩ := List.mem_map.mp hw
    cases hv
  kept := Or.inl rfl
  given := by
    intro w hw r hr
    obtain ⟨l, hl, rfl⟩ := List.mem_map.mp hw
    exact List.mem_flatten.mpr ⟨l, hl, hr⟩
  reached := by
    intro r hr
    obtain ⟨l, hl, hr⟩ := List.mem_flatten.mp hr
    exact Or.inr ⟨⟨l, none⟩, List.mem_map_of_mem hl, hr⟩
  posted := Or.inl rfl

/-! ## Every step keeps order -/

section

variable {posted : List Nat} {c : Crew} {i percent : Nat} {rest : List Nat}

theorem Orderly.announce (h : Orderly posted c)
    (hold : c.workers[i]? = some ⟨percent :: rest, none⟩) :
    Orderly posted ⟨c.workers.set i ⟨rest, (c.progress.announce percent).2⟩,
      (c.progress.announce percent).1⟩ := by
  have hmem : (⟨percent :: rest, none⟩ : Worker) ∈ c.workers := List.mem_of_getElem? hold
  have hgiven : ∀ pending, ∀ w ∈ c.workers.set i ⟨rest, pending⟩, ∀ r ∈ w.reports, r ∈ posted := by
    intro pending w hw r hr
    rcases List.mem_or_eq_of_mem_set hw with hw | rfl
    · exact h.given w hw r hr
    · exact h.given _ hmem r (List.mem_cons_of_mem _ hr)
  have hreached : ∀ pending, ∀ r ∈ posted, r = percent ∨ min r 100 ≤ c.progress.value
      ∨ ∃ w ∈ c.workers.set i ⟨rest, pending⟩, r ∈ w.reports := by
    intro pending r hr
    rcases h.reached r hr with hr | hr
    · exact Or.inr (Or.inl hr)
    · rcases exists_mem_set hold hr with hr | hr
      · rcases List.mem_cons.mp hr with rfl | hr
        · exact Or.inl rfl
        · exact Or.inr (Or.inr ⟨_, mem_set_new hold, hr⟩)
      · exact Or.inr (Or.inr hr)
  rcases announce_cases c.progress percent with ⟨hle, heq⟩ | ⟨hlt, heq⟩ <;> rw [heq]
  · refine ⟨h.heard, h.delivered, ?_, ?_, hgiven none, ?_, h.posted⟩
    · intro w hw v hv
      rcases List.mem_or_eq_of_mem_set hw with hw | rfl
      · exact h.pending w hw v hv
      · cases hv
    · rcases h.kept with hkept | hkept
      · exact Or.inl hkept
      · rcases exists_mem_set hold hkept with hkept | hkept
        · cases hkept
        · exact Or.inr hkept
    · intro r hr
      rcases hreached none r hr with rfl | hr | hr
      · exact Or.inl hle
      · exact Or.inl hr
      · exact Or.inr hr
  · have hvalue : (c.progress.raise (min percent 100)).value = min percent 100 :=
      Nat.max_eq_right (Nat.le_of_lt hlt)
    refine ⟨h.heard, ?_, ?_, ?_, hgiven _, ?_, ?_⟩ <;> dsimp only <;> rw [hvalue]
    · exact Nat.le_trans h.delivered (Nat.le_of_lt hlt)
    · intro w hw v hv
      rcases List.mem_or_eq_of_mem_set hw with hw | rfl
      · exact Nat.le_trans (h.pending w hw v hv) (Nat.le_of_lt hlt)
      · exact Nat.le_of_eq (Option.some.inj hv).symm
    · exact Or.inr ⟨_, mem_set_new hold, rfl⟩
    · intro r hr
      rcases hreached (some (min percent 100)) r hr with rfl | hr | hr
      · exact Or.inl (Nat.le_refl _)
      · exact Or.inl (Nat.le_trans hr (Nat.le_of_lt hlt))
      · exact Or.inr hr
    · exact Or.inr ⟨percent, h.given _ hmem percent List.mem_cons_self, rfl⟩

theorem le_headD_of_pairwise {l : List Nat} (h : l.Pairwise (· > ·)) : ∀ v ∈ l, v ≤ l.headD 0 := by
  intro v hv
  cases l with
  | nil => cases hv
  | cons a l =>
      rcases List.mem_cons.mp hv with rfl | hv
      · exact Nat.le_refl _
      · exact Nat.le_of_lt (List.rel_of_pairwise_cons h hv)

theorem Orderly.deliver (h : Orderly posted c) (hold : c.workers[i]? = some ⟨rest, some percent⟩) :
    Orderly posted ⟨c.workers.set i ⟨rest, none⟩, c.progress.deliver percent⟩ := by
  have hmem : (⟨rest, some percent⟩ : Worker) ∈ c.workers := List.mem_of_getElem? hold
  have hle : percent ≤ c.progress.value := h.pending _ hmem percent rfl
  obtain ⟨o, ho, hordered, hlast⟩ := h.heard
  have hdeliver := deliver_cases ho percent
  refine ⟨?_, ?_, ?_, ?_, ?_, ?_, ?_⟩ <;> dsimp only <;> (try rw [value_deliver])
  · rcases hdeliver with ⟨-, heq⟩ | ⟨hnews, hdelivered, hobserver⟩
    · rw [heq]
      exact ⟨o, ho, hordered, hlast⟩
    · refine ⟨_, hobserver, List.pairwise_cons.mpr ⟨fun v hv => ?_, hordered⟩, hdelivered⟩
      have hv := le_headD_of_pairwise hordered v hv
      omega
  · rcases hdeliver with ⟨-, heq⟩ | ⟨-, hdelivered, -⟩
    · rw [heq]
      exact h.delivered
    · rw [hdelivered]
      exact hle
  · intro w hw v hv
    rcases List.mem_or_eq_of_mem_set hw with hw | rfl
    · exact h.pending w hw v hv
    · cases hv
  · -- Either this worker tells the stored value, or what it tells is old.
    have hdelivered := h.delivered
    rcases h.kept with hkept | hkept
    · left
      rcases hdeliver with ⟨-, heq⟩ | ⟨hnews, -, -⟩
      · rw [heq]
        exact hkept
      · omega
    · rcases exists_mem_set hold hkept with hkept | hkept
      · have hvalue := Option.some.inj hkept
        left
        rcases hdeliver with ⟨hold, heq⟩ | ⟨-, hnow, -⟩
        · rw [heq]
          omega
        · rw [hnow]
          exact hvalue.symm
      · exact Or.inr hkept
  · intro w hw r hr
    rcases List.mem_or_eq_of_mem_set hw with hw | rfl
    · exact h.given w hw r hr
    · exact h.given _ hmem r hr
  · intro r hr
    rcases h.reached r hr with hr | hr
    · exact Or.inl hr
    · rcases exists_mem_set hold hr with hr | hr
      · exact Or.inr ⟨_, mem_set_new hold, hr⟩
      · exact Or.inr hr
  · exact h.posted

theorem Orderly.step (h : Orderly posted c) (i : Nat) : Orderly posted (c.step i) := by
  rcases c.step_cases i with heq | ⟨percent, rest, hold, heq⟩ | ⟨percent, rest, hold, heq⟩ <;>
    rw [heq]
  · exact h
  · exact h.announce hold
  · exact h.deliver hold

end

theorem Orderly.run {posted : List Nat} (schedule : List Nat) {c : Crew} (h : Orderly posted c) :
    Orderly posted (c.run schedule) := by
  induction schedule generalizing c with
  | nil => exact h
  | cons i schedule ih => exact ih (h.step i)

/-! ## When all reports are complete -/

theorem Orderly.delivered_of_isDone {posted : List Nat} {c : Crew} (h : Orderly posted c)
    (hdone : c.isDone) : c.progress.delivered = c.progress.value := by
  rcases h.kept with hkept | ⟨w, hw, hpending⟩
  · exact hkept.symm
  · have hw := List.all_eq_true.mp hdone w hw
    simp [Worker.isDone, hpending] at hw

theorem Orderly.value_of_isDone {posted : List Nat} {c : Crew} (h : Orderly posted c)
    (hdone : c.isDone) : c.progress.value = min (posted.max?.getD 0) 100 := by
  have hreached : ∀ r ∈ posted, min r 100 ≤ c.progress.value := by
    intro r hr
    rcases h.reached r hr with hr | ⟨w, hw, hr⟩
    · exact hr
    · have hw := List.all_eq_true.mp hdone w hw
      rw [Worker.isDone, Bool.and_eq_true, List.isEmpty_iff] at hw
      rw [hw.1] at hr
      cases hr
  cases hmax : posted.max? with
  | none =>
      obtain rfl := List.max?_eq_none_iff.mp hmax
      rcases h.posted with hzero | ⟨r, hr, -⟩
      · exact hzero
      · cases hr
  | some m =>
      obtain ⟨hmem, hle⟩ := List.max?_eq_some_iff.mp hmax
      refine Nat.le_antisymm ?_ (hreached m hmem)
      rcases h.posted with hzero | ⟨r, hr, hvalue⟩
      · omega
      · have hr := hle r hr
        rw [hvalue, Option.getD_some]
        omega

theorem Orderly.value_le {posted : List Nat} {c : Crew} (h : Orderly posted c) :
    c.progress.value ≤ 100 := by
  rcases h.posted with hzero | ⟨r, -, hvalue⟩ <;> omega

/-- What the observer hears, seen in the order in which it was told. -/
theorem Orderly.told {posted : List Nat} {c : Crew} (h : Orderly posted c) :
    c.progress.heard.Pairwise (· < ·) ∧ c.progress.heard.getLastD 0 = c.progress.delivered
      ∧ ∀ v ∈ c.progress.heard, v ≤ c.progress.value := by
  obtain ⟨o, ho, hordered, hlast⟩ := h.heard
  have hheard : c.progress.heard = o.heard.reverse := by
    simp only [Progress.heard, ho]
  rw [hheard]
  refine ⟨List.pairwise_reverse.mpr hordered, ?_, fun v hv => ?_⟩
  · rw [hlast, List.getLastD_eq_getLast?, List.getLast?_reverse, List.headD_eq_head?_getD]
  · have hv := le_headD_of_pairwise hordered v (List.mem_reverse.mp hv)
    have hdelivered := h.delivered
    omega

/-- However the parts of the reports of any number of workers follow each other, the observer hears
larger and larger percentages up to 100, the stored value never falls and never is below the last one
heard, and when all reports are complete the last one heard is the stored value, which is the largest
percentage that was reported, at most 100. -/
theorem no_report_lost (reports : List (List Nat)) (cancelFrom : Option Nat) (schedule : List Nat) :
    let c : Crew := (Crew.start reports (Progress.observed cancelFrom)).run schedule
    c.progress.heard.Pairwise (· < ·)
      ∧ (∀ v ∈ c.progress.heard, v ≤ 100)
      ∧ (∀ i, c.progress.value ≤ (c.step i).progress.value)
      ∧ c.progress.heard.getLastD 0 = c.progress.delivered
      ∧ c.progress.delivered ≤ c.progress.value
      ∧ (c.isDone → c.progress.delivered = c.progress.value
        ∧ c.progress.value = min (reports.flatten.max?.getD 0) 100) := by
  intro c
  have h : Orderly reports.flatten c := (orderly_start reports cancelFrom).run schedule
  obtain ⟨hordered, hlast, hle⟩ := h.told
  refine ⟨hordered, fun v hv => Nat.le_trans (hle v hv) h.value_le, c.value_le_step, hlast,
    h.delivered, fun hdone => ⟨h.delivered_of_isDone hdone, h.value_of_isDone hdone⟩⟩

/-- The first worker raises the value to 40 and is overtaken by the second one, which raises it to
100 and tells so. What the first one then has to tell is old. -/
theorem no_report_lost_overtaken :
    ((start [[40], [70, 250]] (.observed none)).run [0, 1, 1, 1, 1, 0]).isDone
      ∧ ((start [[40], [70, 250]] (.observed none)).run [0, 1, 1, 1, 1, 0]).progress.heard
        = [70, 100]
      ∧ ((start [[40], [70, 250]] (.observed none)).run [0, 1, 1, 1, 1, 0]).progress.value
        = 100 := by
  have hdone : ((start [[40], [70, 250]] (.observed none)).run [0, 1, 1, 1, 1, 0]).isDone := by
    decide
  obtain ⟨-, -, -, -, -, hlast⟩ := no_report_lost [[40], [70, 250]] none [0, 1, 1, 1, 1, 0]
  exact ⟨hdone, by decide, (hlast hdone).2⟩

end Crew

end Progress

end Darkroom
