import Darkroom.Image.RowPool
import Darkroom.Proofs.Image.Rows
import Darkroom.Proofs.Progress.Crew
import Darkroom.Proofs.Steady

/-!
# The order of the rows does not matter

A step of the pool changes the task whose turn it is and no other (`step_cases`), so what is known of
each row by itself (`RowTask.Sound`) holds after any schedule. The count and the stored value are
common to the rows: the row that was counted last either has its report still before it or has made
it (`Paced.last`). When all tasks are done and nobody asked for cancellation, every row was changed,
all rows are counted, and the report of the last one has brought the value to the end of the band
(`run_any_order`).
-/

namespace Darkroom

/-! ## Percentages of a band -/

namespace Progress

theorem first_le_percentage (done total first last : Nat) :
    first ≤ percentage done total first last :=
  Nat.le_add_right _ _

theorem percentage_le (done total first last : Nat) :
    percentage done total first last ≤ max first last := by
  have h : (last - first) * min done total / total ≤ last - first :=
    Nat.div_le_of_le_mul (by
      rw [Nat.mul_comm total]
      exact Nat.mul_le_mul_left _ (Nat.min_le_right _ _))
  unfold percentage
  omega

theorem percentage_self {total : Nat} (h : 0 < total) (first last : Nat) :
    percentage total total first last = max first last := by
  rw [percentage, Nat.min_self, Nat.mul_div_cancel _ h]
  omega

end Progress

namespace Image

/-! ## One step -/

/-- The row was changed. Afterwards only the counting is left, which does not look at the row. -/
def RowTask.isChanged (task : RowTask) : Bool :=
  match task.phase with
  | .changed | .counted _ | .raised _ | .finished => true
  | .waiting | .admitted | .skipped => false

def RowTask.isCounted (task : RowTask) : Bool :=
  match task.phase with
  | .counted _ | .raised _ | .finished => true
  | .waiting | .admitted | .changed | .skipped => false

namespace RowPool

/-- What a step of the task of row `y` may be, with the pool and the progress after it. There is one
case for each part that cannot be interrupted, and one for a task that has nothing to do. -/
inductive Step (pool : RowPool) (p : Progress) (y : Nat) : RowPool → Progress → Prop where
  | rest : Step pool p y pool p
  | accept {row : Row} : pool.tasks[y]? = some ⟨.waiting, row⟩ → p.isRunning →
      Step pool p y (pool.put y ⟨.admitted, row⟩) p
  | skip {row : Row} : pool.tasks[y]? = some ⟨.waiting, row⟩ → p.isRunning = false →
      Step pool p y (pool.put y ⟨.skipped, row⟩) p
  | change {row : Row} : pool.tasks[y]? = some ⟨.admitted, row⟩ →
      Step pool p y (pool.put y ⟨.changed, pool.op y row⟩) p
  | count {row : Row} : pool.tasks[y]? = some ⟨.changed, row⟩ →
      Step pool p y
        { pool.put y ⟨.counted (pool.counted + 1), row⟩ with counted := pool.counted + 1 } p
  | silent {row : Row} {number : Nat} : pool.tasks[y]? = some ⟨.counted number, row⟩ →
      min (pool.percentage number) 100 ≤ p.value → Step pool p y (pool.put y ⟨.finished, row⟩) p
  | raise {row : Row} {number : Nat} : pool.tasks[y]? = some ⟨.counted number, row⟩ →
      p.value < min (pool.percentage number) 100 →
      Step pool p y (pool.put y ⟨.raised (min (pool.percentage number) 100), row⟩)
        (p.raise (min (pool.percentage number) 100))
  | tell {row : Row} {percent : Nat} : pool.tasks[y]? = some ⟨.raised percent, row⟩ →
      Step pool p y (pool.put y ⟨.finished, row⟩) (p.deliver percent)

theorem step_cases (pool : RowPool) (p : Progress) (y : Nat) :
    Step pool p y (pool.step p y).1 (pool.step p y).2 := by
  unfold step
  cases htask : pool.tasks[y]? with
  | none => exact .rest
  | some task =>
      obtain ⟨phase, row⟩ := task
      cases phase with
      | waiting =>
          cases hrunning : p.isRunning with
          | true => exact .accept htask hrunning
          | false => exact .skip htask hrunning
      | admitted => exact .change htask
      | changed => exact .count htask
      | counted number =>
          dsimp only
          rcases Progress.announce_cases p (pool.percentage number) with ⟨h, heq⟩ | ⟨h, heq⟩ <;>
            rw [heq]
          · exact .silent htask h
          · exact .raise htask h
      | raised percent => exact .tell htask
      | finished | skipped => exact .rest

section

variable {pool pool' : RowPool} {p p' : Progress} {y : Nat}

theorem Step.isRunning (h : Step pool p y pool' p') (hrunning : p'.isRunning) : p.isRunning := by
  cases h with
  | tell => exact Progress.isRunning_of_deliver hrunning
  | rest | accept | skip | change | count | silent | raise => exact hrunning

theorem Step.value_le (h : Step pool p y pool' p') (hp : p.value ≤ 100) : p'.value ≤ 100 := by
  cases h with
  | tell => exact Nat.le_trans (Nat.le_of_eq (Progress.value_deliver _ _)) hp
  | raise => exact Nat.max_le.mpr ⟨hp, Nat.min_le_right _ _⟩
  | rest | accept | skip | change | count | silent => exact hp

end

@[simp]
theorem percentage_put (pool : RowPool) (y : Nat) (task : RowTask) (number : Nat) :
    (pool.put y task).percentage number = pool.percentage number := by
  rw [percentage, percentage, put, List.length_set]

end RowPool

/-! ## What is known of a row by itself -/

/-- What holds of the task of row `y`, when a number of rows is counted, and work may go on or not.
The row is changed once or not at all, which its phase tells. -/
structure RowTask.Sound (image : Image) (op : RowOp) (counted : Nat) (running : Bool) (y : Nat)
    (task : RowTask) : Prop where
  row : ∃ row, image.rows[y]? = some row ∧ task.row = if task.isChanged then op y row else row
  skipped : running → task.phase ≠ .skipped
  number : ∀ n, task.phase = .counted n → n ≤ counted

theorem RowTask.Sound.mono {image : Image} {op : RowOp} {counted counted' y : Nat}
    {running running' : Bool} {task : RowTask} (h : task.Sound image op counted running y)
    (hcounted : counted ≤ counted') (hrunning : running' → running) :
    task.Sound image op counted' running' y where
  row := h.row
  skipped hr := h.skipped (hrunning hr)
  number n hn := Nat.le_trans (h.number n hn) hcounted

namespace RowPool

/-! ## What holds after every step -/

/-- What holds of a pool and its progress, where `p₀` is the progress before the first step.
Tasks count in any order, so the number of counted rows, and not any row, ties the progress to
the pool. -/
structure Paced (image : Image) (band : Band) (op : RowOp) (p₀ : Progress) (pool : RowPool)
    (p : Progress) : Prop where
  sameBand : pool.band = band
  sameOp : pool.op = op
  length : pool.tasks.length = image.height.toNat
  sound : ∀ (y : Nat) (task : RowTask), pool.tasks[y]? = some task →
    task.Sound image op pool.counted p.isRunning y
  counted : pool.counted = pool.tasks.countP RowTask.isCounted
  /-- The row counted last is about to report, or has reported. -/
  last : pool.counted = 0 ∨ (∃ task ∈ pool.tasks, task.phase = .counted pool.counted)
    ∨ min (pool.percentage pool.counted) 100 ≤ p.value
  grown : p₀.value ≤ p.value
  bounded : p.value ≤ max p₀.value (min 100 (max band.first band.last))

section

variable {image : Image} {band : Band} {op : RowOp} {p₀ p p' : Progress} {pool pool' : RowPool}
  {y : Nat}

theorem paced_start (image : Image) (band : Band) (op : RowOp) (p : Progress) :
    Paced image band op p (start image band op) p where
  sameBand := rfl
  sameOp := rfl
  length := by rw [start, List.length_map, length_rows]
  sound := by
    intro y task htask
    rw [start, List.getElem?_map, Option.map_eq_some_iff] at htask
    obtain ⟨row, hrow, rfl⟩ := htask
    refine ⟨⟨row, hrow, rfl⟩, ?_, ?_⟩
    · rintro - ⟨⟩
    · rintro n ⟨⟩
  counted := by
    rw [start, List.countP_map]
    exact (List.countP_eq_zero.mpr fun _ _ => Bool.false_ne_true).symm
  last := Or.inl rfl
  grown := Nat.le_refl _
  bounded := Nat.le_max_left _ _

theorem percentage_le_of_paced (h : Paced image band op p₀ pool p) (number : Nat) :
    pool.percentage number ≤ max band.first band.last := by
  rw [percentage, h.sameBand]
  exact Progress.percentage_le _ _ _ _

/-- A step that exchanges the task of one row, and may count one row more. -/
theorem Paced.exchange {old new : RowTask} {counted : Nat} (h : Paced image band op p₀ pool p)
    (hold : pool.tasks[y]? = some old) (hsound : new.Sound image op counted p'.isRunning y)
    (hcounted : pool.counted ≤ counted) (hrunning : p'.isRunning → p.isRunning)
    (hcount : counted + (if old.isCounted then 1 else 0)
      = pool.counted + if new.isCounted then 1 else 0)
    (hlast : counted = 0 ∨ (∃ task ∈ pool.tasks.set y new, task.phase = .counted counted)
      ∨ min (pool.percentage counted) 100 ≤ p'.value)
    (hgrown : p.value ≤ p'.value)
    (hbounded : p'.value ≤ max p₀.value (min 100 (max band.first band.last))) :
    Paced image band op p₀ { pool.put y new with counted := counted } p' where
  sameBand := h.sameBand
  sameOp := h.sameOp
  length := by rw [put, List.length_set, h.length]
  sound := by
    intro j task htask
    rw [put, List.getElem?_set] at htask
    split at htask
    · rename_i hj
      subst hj
      rw [if_pos (List.getElem?_eq_some_iff.mp hold).1] at htask
      obtain rfl := Option.some.inj htask
      exact hsound
    · exact (h.sound j task htask).mono hcounted hrunning
  counted := by
    obtain ⟨hy, hget⟩ := List.getElem?_eq_some_iff.mp hold
    have hpos : old.isCounted → 0 < pool.tasks.countP RowTask.isCounted := fun hc =>
      List.countP_pos_iff.mpr ⟨old, List.mem_of_getElem? hold, hc⟩
    have hpool := h.counted
    dsimp only
    rw [put, List.countP_set hy, hget]
    by_cases hc : old.isCounted
    · have hpos := hpos hc
      rw [if_pos hc] at hcount ⊢
      omega
    · rw [if_neg hc] at hcount ⊢
      omega
  last := by
    rw [← percentage_put pool y new] at hlast
    exact hlast
  grown := Nat.le_trans h.grown hgrown
  bounded := hbounded

/-- A task that is not about to report is not the one that `last` speaks of. -/
theorem Paced.last_set {old new : RowTask} (h : Paced image band op p₀ pool p)
    (hold : pool.tasks[y]? = some old) (hphase : old.phase ≠ .counted pool.counted)
    (hvalue : p.value ≤ p'.value) :
    pool.counted = 0 ∨ (∃ task ∈ pool.tasks.set y new, task.phase = .counted pool.counted)
      ∨ min (pool.percentage pool.counted) 100 ≤ p'.value := by
  rcases h.last with hlast | hlast | hlast
  · exact Or.inl hlast
  · rcases exists_mem_set hold hlast with hlast | hlast
    · exact absurd hlast hphase
    · exact Or.inr (Or.inl hlast)
  · exact Or.inr (Or.inr (Nat.le_trans hlast hvalue))

/-- The same for a task that reports, which may be that one, and has then reported. -/
theorem Paced.last_report {row : Row} {new : RowTask} {number : Nat}
    (h : Paced image band op p₀ pool p) (hold : pool.tasks[y]? = some ⟨.counted number, row⟩)
    (hvalue : p.value ≤ p'.value) (hreport : min (pool.percentage number) 100 ≤ p'.value) :
    pool.counted = 0 ∨ (∃ task ∈ pool.tasks.set y new, task.phase = .counted pool.counted)
      ∨ min (pool.percentage pool.counted) 100 ≤ p'.value := by
  by_cases hnumber : number = pool.counted
  · subst hnumber
    exact Or.inr (Or.inr hreport)
  · refine h.last_set hold (fun heq => hnumber ?_) hvalue
    exact RowPhase.counted.inj heq

/-- A step of a task that has nothing to do with counting and reporting. -/
theorem Paced.exchange_quiet {old new : RowTask} (h : Paced image band op p₀ pool p)
    (hold : pool.tasks[y]? = some old) (hsound : new.Sound image op pool.counted p.isRunning y)
    (hcount : old.isCounted = new.isCounted) (hphase : old.phase ≠ .counted pool.counted) :
    Paced image band op p₀ (pool.put y new) p :=
  h.exchange hold hsound (Nat.le_refl _) (fun hr => hr) (by rw [hcount])
    (h.last_set hold hphase (Nat.le_refl _)) (Nat.le_refl _) h.bounded

theorem Paced.step (h : Paced image band op p₀ pool p) (hstep : Step pool p y pool' p') :
    Paced image band op p₀ pool' p' := by
  cases hstep with
  | rest => exact h
  | accept hold hrunning =>
      have hsound := h.sound y _ hold
      refine h.exchange_quiet hold ⟨hsound.row, ?_, ?_⟩ rfl ?_
      · rintro - ⟨⟩
      · rintro n ⟨⟩
      · rintro ⟨⟩
  | skip hold hstopped =>
      have hsound := h.sound y _ hold
      refine h.exchange_quiet hold ⟨hsound.row, ?_, ?_⟩ rfl ?_
      · intro hrunning
        rw [hstopped] at hrunning
        cases hrunning
      · rintro n ⟨⟩
      · rintro ⟨⟩
  | change hold =>
      obtain ⟨row, hrow, heq⟩ := (h.sound y _ hold).row
      obtain rfl : _ = row := heq
      refine h.exchange_quiet hold ⟨⟨_, hrow, ?_⟩, ?_, ?_⟩ rfl ?_
      · rw [h.sameOp]
        rfl
      · rintro - ⟨⟩
      · rintro n ⟨⟩
      · rintro ⟨⟩
  | count hold =>
      have hsound := h.sound y _ hold
      refine h.exchange hold ⟨hsound.row, ?_, ?_⟩ (Nat.le_succ _) (fun hr => hr) rfl
        (Or.inr (Or.inl ⟨_, mem_set_new hold, rfl⟩)) (Nat.le_refl _) h.bounded
      · rintro - ⟨⟩
      · rintro n ⟨⟩
        exact Nat.le_refl _
  | silent hold hle =>
      have hsound := h.sound y _ hold
      refine h.exchange hold ⟨hsound.row, ?_, ?_⟩ (Nat.le_refl _) (fun hr => hr) rfl
        (h.last_report hold (Nat.le_refl _) hle) (Nat.le_refl _) h.bounded
      · rintro - ⟨⟩
      · rintro n ⟨⟩
  | @raise row number hold hlt =>
      have hsound := h.sound y _ hold
      have hvalue : (p.raise (min (pool.percentage number) 100)).value
          = min (pool.percentage number) 100 := Nat.max_eq_right (Nat.le_of_lt hlt)
      have hgrown : p.value ≤ (p.raise (min (pool.percentage number) 100)).value :=
        Nat.le_max_left _ _
      have hpercentage := percentage_le_of_paced h number
      refine h.exchange hold ⟨hsound.row, ?_, ?_⟩ (Nat.le_refl _) (fun hr => hr) rfl
        (h.last_report hold hgrown (Nat.le_of_eq hvalue.symm)) hgrown ?_
      · rintro - ⟨⟩
      · rintro n ⟨⟩
      · omega
  | @tell row percent hold =>
      have hsound := h.sound y _ hold
      have hvalue := Progress.value_deliver p percent
      have hgrown := Nat.le_of_eq hvalue.symm
      refine h.exchange hold ⟨hsound.row, ?_, ?_⟩ (Nat.le_refl _) Progress.isRunning_of_deliver rfl
        (h.last_set hold ?_ hgrown) hgrown (Nat.le_trans (Nat.le_of_eq hvalue) h.bounded)
      · rintro - ⟨⟩
      · rintro n ⟨⟩
      · rintro ⟨⟩

/-- Telling the observer and asking for cancellation leave the value as it is, and at most set the
flag. -/
theorem Paced.disturbed (h : Paced image band op p₀ pool p) (hvalue : p'.value = p.value)
    (hrunning : p'.isRunning → p.isRunning) : Paced image band op p₀ pool p' where
  sameBand := h.sameBand
  sameOp := h.sameOp
  length := h.length
  sound y task htask := (h.sound y task htask).mono (Nat.le_refl _) hrunning
  counted := h.counted
  last := hvalue ▸ h.last
  grown := hvalue ▸ h.grown
  bounded := hvalue ▸ h.bounded

theorem Paced.turn {s : RowPool × Progress} (h : Paced image band op p₀ s.1 s.2) (t : Turn) :
    Paced image band op p₀ (RowPool.turn s t).1 (RowPool.turn s t).2 := by
  cases t with
  | row y => exact h.step (step_cases s.1 s.2 y)
  | cancel =>
      refine h.disturbed rfl ?_
      rintro ⟨⟩

theorem Paced.run (schedule : List Turn) {s : RowPool × Progress}
    (h : Paced image band op p₀ s.1 s.2) :
    Paced image band op p₀ (RowPool.run s schedule).1 (RowPool.run s schedule).2 := by
  induction schedule generalizing s with
  | nil => exact h
  | cons t schedule ih => exact ih (h.turn t)

/-! ## What holds of all rows together -/

theorem Paced.getElem? (h : Paced image band op p₀ pool p) (hy : y < image.height.toNat) :
    ∃ task, pool.tasks[y]? = some task
      ∧ task.row = if task.isChanged then op y (image.row y) else image.row y := by
  have hlt : y < pool.tasks.length := by rwa [h.length]
  have htask := List.getElem?_eq_getElem hlt
  obtain ⟨row, hrow, heq⟩ := (h.sound y _ htask).row
  rw [(of_getElem?_rows hrow).2] at heq
  exact ⟨_, htask, heq⟩

theorem Paced.size_row (h : Paced image band op p₀ pool p) (hwf : image.WellFormed)
    (hop : ∀ y row, (op y row).size = row.size) :
    ∀ row ∈ pool.tasks.map (·.row), row.size = image.rowBytes := by
  intro row hrow
  obtain ⟨task, htask, rfl⟩ := List.mem_map.mp hrow
  obtain ⟨y, hy⟩ := List.mem_iff_getElem?.mp htask
  obtain ⟨row, hrow, heq⟩ := (h.sound y task hy).row
  obtain ⟨hlt, rfl⟩ := of_getElem?_rows hrow
  rw [heq]
  split
  · rw [hop, hwf.size_row hlt]
  · exact hwf.size_row hlt

theorem Paced.row_image (h : Paced image band op p₀ pool p) (hwf : image.WellFormed)
    (hop : ∀ y row, (op y row).size = row.size) {task : RowTask}
    (htask : pool.tasks[y]? = some task) : (pool.image image).row y = task.row :=
  row_withRows (h.size_row hwf hop) (by rw [List.getElem?_map, htask, Option.map_some])

theorem Paced.size_image (h : Paced image band op p₀ pool p) (hwf : image.WellFormed)
    (hop : ∀ y row, (op y row).size = row.size) :
    (pool.image image).bytes.size = image.bytes.size := by
  rw [RowPool.image, size_withRows (h.size_row hwf hop), List.length_map, h.length,
    hwf.bytes_size_eq_rows]

theorem Paced.report? (h : Paced image band op p₀ pool p) {percent : Nat}
    (hreport : pool.report? y = some percent) :
    band.first ≤ percent ∧ percent ≤ max band.first band.last := by
  unfold RowPool.report? at hreport
  split at hreport
  · rename_i number row htask
    obtain rfl := Option.some.inj hreport
    refine ⟨?_, percentage_le_of_paced h number⟩
    rw [percentage, h.sameBand]
    exact Progress.first_le_percentage _ _ _ _
  · cases hreport

/-- A task that is done has finished, unless work was to stop. -/
theorem Paced.finished (h : Paced image band op p₀ pool p) (hdone : pool.isDone)
    (hrunning : p.isRunning) : ∀ task ∈ pool.tasks, task.phase = .finished := by
  intro task htask
  obtain ⟨y, hy⟩ := List.mem_iff_getElem?.mp htask
  have hskipped := (h.sound y task hy).skipped hrunning
  have hdone := List.all_eq_true.mp hdone task htask
  cases hphase : task.phase with
  | finished => rfl
  | skipped => exact absurd hphase hskipped
  | waiting | admitted | changed | counted | raised =>
      rw [RowTask.isDone, hphase] at hdone
      cases hdone

/-- Then all rows are counted, and the last of them has reported the end of the band. -/
theorem Paced.value (h : Paced image band op p₀ pool p) (hpos : 0 < image.height.toNat)
    (hdone : pool.isDone) (hrunning : p.isRunning) :
    p.value = max p₀.value (min 100 (max band.first band.last)) := by
  have hfinished := h.finished hdone hrunning
  have hcounted : pool.counted = image.height.toNat := by
    rw [h.counted, ← h.length, List.countP_eq_length]
    intro task htask
    rw [RowTask.isCounted, hfinished task htask]
  have hgrown := h.grown
  have hbounded := h.bounded
  rcases h.last with hlast | ⟨task, htask, hlast⟩ | hlast
  · omega
  · rw [hfinished task htask] at hlast
    cases hlast
  · rw [percentage, h.length, h.sameBand, hcounted, Progress.percentage_self hpos] at hlast
    omega

theorem Paced.rows (h : Paced image band op p₀ pool p) (hdone : pool.isDone)
    (hrunning : p.isRunning) : pool.tasks.map (·.row) = image.rows.mapIdx op := by
  refine List.ext_getElem? fun y => ?_
  rw [List.getElem?_map, List.getElem?_mapIdx]
  by_cases hy : y < image.height.toNat
  · obtain ⟨task, htask, hrow⟩ := h.getElem? hy
    have hphase := h.finished hdone hrunning task (List.mem_of_getElem? htask)
    rw [htask, getElem?_rows hy, Option.map_some, Option.map_some, hrow, RowTask.isChanged, hphase,
      if_pos rfl]
  · have hpool : pool.tasks.length ≤ y := by
      rw [h.length]
      exact Nat.le_of_not_lt hy
    have hrows : image.rows.length ≤ y := by
      rw [length_rows]
      exact Nat.le_of_not_lt hy
    rw [List.getElem?_eq_none hpool, List.getElem?_eq_none hrows, Option.map_none, Option.map_none]

theorem Paced.everyRow (h : Paced image band op p₀ pool p) (hnull : image.isNull = false)
    (hdone : pool.isDone) (hrunning : p.isRunning) : pool.image image = image.everyRow op := by
  rw [RowPool.image, h.rows hdone hrunning, Image.everyRow, hnull, if_neg Bool.false_ne_true]

end

/-- However the steps of the rows follow each other, and whenever cancellation is asked for, the image
keeps its frame, each row is as it was or changed once, and all percentages reported lie in the band.
When all rows are done and nobody asked for cancellation, the image is that of the loop over the rows
in order, and the value is at the end of the band or where it was if that was higher. -/
theorem run_any_order {image : Image} (hwf : image.WellFormed) (hnull : image.isNull = false)
    {op : RowOp} (hop : ∀ y row, (op y row).size = row.size) (band : Band) (p : Progress)
    (schedule : List Turn) :
    let s := run (start image band op, p) schedule
    let result := s.1.image image
    (result.dimensions = image.dimensions ∧ result.depth = image.depth
        ∧ result.hasAlpha = image.hasAlpha ∧ result.bytes.size = image.bytes.size)
      ∧ (∀ y < image.height.toNat,
        result.row y = image.row y ∨ result.row y = op y (image.row y))
      ∧ (∀ y percent, s.1.report? y = some percent →
        band.first ≤ percent ∧ percent ≤ max band.first band.last)
      ∧ (s.1.isDone → s.2.isRunning →
        (∀ y < image.height.toNat, result.row y = op y (image.row y))
          ∧ result = (image.processRows .start band op).1
          ∧ s.2.value = max p.value (min 100 (max band.first band.last))) := by
  intro s result
  have h : Paced image band op p s.1 s.2 := (paced_start image band op p).run schedule
  refine ⟨⟨rfl, rfl, rfl, h.size_image hwf hop⟩, ?_, fun y percent hreport => h.report? hreport, ?_⟩
  · intro y hy
    obtain ⟨task, htask, hrow⟩ := h.getElem? hy
    rw [h.row_image hwf hop htask, hrow]
    split
    · exact Or.inr rfl
    · exact Or.inl rfl
  · intro hdone hrunning
    refine ⟨?_, ?_, h.value (hwf.height_pos hnull) hdone hrunning⟩
    · intro y hy
      obtain ⟨task, htask, hrow⟩ := h.getElem? hy
      have hphase := h.finished hdone hrunning task (List.mem_of_getElem? htask)
      rw [h.row_image hwf hop htask, hrow, RowTask.isChanged, hphase, if_pos rfl]
    · rw [(steady_processRows image band op).image_start]
      exact h.everyRow hnull hdone hrunning

/-- The two rows of an image, whose tasks overtake each other. The second row is counted first, and
raises the progress last. -/
def overtaking : List Turn :=
  [.row 1, .row 0, .row 1, .row 0, .row 1, .row 0, .row 0, .row 1, .row 0, .row 1]

def addNumber : RowOp := fun y row =>
  (row.toList.map fun byte => byte + UInt8.ofNat (y + 1)).toArray

def twoRows : Image :=
  ⟨1, 2, .eight, false, #[10, 20, 30, 40, 50, 60, 70, 80]⟩

theorem run_any_order_overtaking :
    let s := run (start twoRows ⟨20, 60⟩ addNumber, .start) overtaking
    s.1.isDone ∧ s.2.isRunning
      ∧ s.1.image twoRows = ⟨1, 2, .eight, false, #[11, 21, 31, 41, 52, 62, 72, 82]⟩
      ∧ s.2.value = 60 := by
  have hwf : twoRows.WellFormed := Or.inr (by decide)
  have hop : ∀ y row, (addNumber y row).size = row.size := fun y row => by simp [addNumber]
  have hdone : (run (start twoRows ⟨20, 60⟩ addNumber, .start) overtaking).1.isDone := by
    decide +kernel
  have hrunning : (run (start twoRows ⟨20, 60⟩ addNumber, .start) overtaking).2.isRunning := by
    decide +kernel
  have hrows : (twoRows.processRows .start ⟨20, 60⟩ addNumber).1
      = ⟨1, 2, .eight, false, #[11, 21, 31, 41, 52, 62, 72, 82]⟩ := by
    decide +kernel
  obtain ⟨-, -, -, hall⟩ := run_any_order hwf rfl hop ⟨20, 60⟩ .start overtaking
  obtain ⟨-, himage, hvalue⟩ := hall hdone hrunning
  exact ⟨hdone, hrunning, himage.trans hrows, hvalue⟩

end RowPool

end Image

end Darkroom
