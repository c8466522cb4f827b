import Darkroom.Image.RowPool
import Darkroom.Proofs.Image.Rows
import Darkroom.Proofs.Progress.Crew

/-!
# Schedules that finish all rows

The loop over the rows in order is one of the schedules (`run_inOrder`). However far the tasks of a
pool are, as long as one is not done there is a step that brings the pool nearer to its end
(`exists_left_step_lt`).
-/

namespace Darkroom.Image.RowPool

/-! ## The rows in order -/

/-- Whose turn it is when a number of rows from row `y` on go one after the other. A task has five
parts, each of which takes a turn. -/
def inOrder : Nat → Nat → List Nat
  | _, 0 => []
  | y, n + 1 => List.replicate 5 y ++ inOrder (y + 1) n

theorem run_append (s : RowPool × Progress) (first second : List Turn) :
    run s (first ++ second) = run (run s first) second :=
  List.foldl_append

section

variable {height : Nat} (band : Band) (op : RowOp) (work : RowWork) {done : List RowTask}

/-- The turns of one row, when nobody else has a turn, do what the loop does with the row. -/
theorem run_row {row : Row} {waiting : List RowTask}
    (hheight : (done ++ ⟨.waiting, row⟩ :: waiting).length = height) :
    ∃ task : RowTask, task.isDone ∧ task.row = (work.row height band op done.length row).2
      ∧ run (⟨band, op, done ++ ⟨.waiting, row⟩ :: waiting, work.finished⟩, work.progress)
          ((List.replicate 5 done.length).map .row)
        = (⟨band, op, done ++ task :: waiting, (work.row height band op done.length row).1.finished⟩,
          (work.row height band op done.length row).1.progress) := by
  have hget (task : RowTask) : (done ++ task :: waiting)[done.length]? = some task := by simp
  have hset (old new : RowTask) :
      (done ++ old :: waiting).set done.length new = done ++ new :: waiting := by simp
  have hlength (task : RowTask) : (done ++ task :: waiting).length = height := by
    rw [← hheight, List.length_append, List.length_append, List.length_cons, List.length_cons]
  have hpos : height ≠ 0 := by
    rw [← hheight, List.length_append, List.length_cons]
    omega
  have hfive : (List.replicate 5 done.length).map Turn.row = [.row done.length, .row done.length,
    .row done.length, .row done.length, .row done.length] := rfl
  cases hrunning : work.progress.isRunning with
  | false =>
      refine ⟨⟨.skipped, row⟩, rfl, ?_, ?_⟩ <;>
        simp only [RowWork.row, run, hfive, List.foldl_cons, List.foldl_nil, turn, step, put, hget,
          hset, hrunning, Bool.false_eq_true, if_false]
  | true =>
      refine ⟨⟨.finished, op done.length row⟩, rfl, ?_, ?_⟩
      · rw [RowWork.row, if_pos hrunning]
      · rw [RowWork.row, if_pos hrunning]
        dsimp only
        rw [Progress.postFraction, if_neg hpos, Progress.post_eq_announce]
        rcases hreport : work.progress.announce
            (Progress.percentage (work.finished + 1) height band.first band.last)
          with ⟨raised, _ | percent⟩ <;>
          simp only [run, hfive, List.foldl_cons, List.foldl_nil, turn, step, put, hget, hset,
            hrunning, if_true, percentage, hlength, hreport]

/-- The pool goes through rows as the loop does. -/
theorem run_rows {rows : List Row} (hheight : done.length + rows.length = height) :
    ∃ tasks : List RowTask, tasks.all RowTask.isDone
      ∧ tasks.map (·.row) = (work.run height band op done.length rows).2
      ∧ run (⟨band, op, done ++ rows.map (RowTask.mk .waiting), work.finished⟩, work.progress)
          ((inOrder done.length rows.length).map .row)
        = (⟨band, op, done ++ tasks, (work.run height band op done.length rows).1.finished⟩,
          (work.run height band op done.length rows).1.progress) := by
  induction rows generalizing done work with
  | nil => exact ⟨[], rfl, rfl, rfl⟩
  | cons row rows ih =>
      have hhere : (done ++ RowTask.mk .waiting row :: rows.map (RowTask.mk .waiting)).length
          = height := by
        rw [List.length_append, List.length_cons, List.length_map]
        exact hheight
      obtain ⟨task, hdone, hrow, hrun⟩ := run_row band op work hhere
      have hnext : (done ++ [task]).length + rows.length = height := by
        rw [List.length_append, List.length_singleton, ← hheight, List.length_cons]
        omega
      obtain ⟨tasks, hall, hrows, hrest⟩ := ih (work.row height band op done.length row).1 hnext
      rw [List.length_append, List.length_singleton] at hrows hrest
      refine ⟨task :: tasks, ?_, ?_, ?_⟩
      · rw [List.all_cons, hdone, hall, Bool.and_self]
      · rw [List.map_cons, hrow, hrows]
        rfl
      · rw [List.length_cons, inOrder, List.map_append, run_append, List.map_cons, hrun,
          List.append_cons, hrest, ← List.append_cons]
        rfl

end

/-- The loop over the rows in order is one of the schedules. -/
theorem run_inOrder {image : Image} (hnull : image.isNull = false) (band : Band) (op : RowOp)
    (p : Progress) :
    let s := run (start image band op, p) ((inOrder 0 image.height.toNat).map .row)
    s.1.isDone ∧ (s.1.image image, s.2) = image.processRows p band op := by
  have hheight : ([] : List RowTask).length + image.rows.length = image.height.toNat := by simp
  obtain ⟨tasks, hall, hrows, hrun⟩ := run_rows band op ⟨0, p⟩ hheight
  rw [List.nil_append, List.nil_append, List.length_nil, length_rows] at hrun
  intro s
  have hs : s = (⟨band, op, tasks, _⟩, _) := hrun
  rw [hs, processRows, hnull, if_neg Bool.false_ne_true]
  refine ⟨hall, ?_⟩
  dsimp only
  rw [RowPool.image, hrows]
  rfl

/-! ## All tasks can be done -/

/-- The steps that a task has before it. Each of its turns takes one away, so all tasks end if turns
are given to all of them. -/
def stepsLeft (task : RowTask) : Nat :=
  match task.phase with
  | .waiting => 5
  | .admitted => 4
  | .changed => 3
  | .counted _ => 2
  | .raised _ => 1
  | .finished | .skipped => 0

def allLeft : List RowTask → Nat
  | [] => 0
  | task :: tasks => stepsLeft task + allLeft tasks

def left (pool : RowPool) : Nat :=
  allLeft pool.tasks

theorem allLeft_set {tasks : List RowTask} {y : Nat} {old : RowTask} (hold : tasks[y]? = some old)
    (new : RowTask) : allLeft (tasks.set y new) + stepsLeft old = allLeft tasks + stepsLeft new := by
  induction tasks generalizing y with
  | nil => cases hold
  | cons task tasks ih =>
      cases y with
      | zero =>
          obtain rfl := Option.some.inj hold
          rw [List.set_cons_zero, allLeft, allLeft]
          omega
      | succ y =>
          have hrest := ih hold
          rw [List.set_cons_succ, allLeft, allLeft]
          omega

theorem left_put {pool : RowPool} {y : Nat} {old : RowTask} (hold : pool.tasks[y]? = some old)
    (new : RowTask) : (pool.put y new).left + stepsLeft old = pool.left + stepsLeft new :=
  allLeft_set hold new

/-- A task that is not done comes nearer to its end with each of its steps. -/
theorem left_step_lt {pool : RowPool} {y : Nat} {task : RowTask}
    (htask : pool.tasks[y]? = some task) (hdone : task.isDone = false) (p : Progress) :
    (pool.step p y).1.left < pool.left := by
  obtain ⟨phase, row⟩ := task
  have hput := left_put htask
  unfold step
  rw [htask]
  cases phase with
  | waiting =>
      cases hrunning : p.isRunning with
      | true =>
          have hput := hput ⟨.admitted, row⟩
          simp only [if_true, stepsLeft] at hput ⊢
          omega
      | false =>
          have hput := hput ⟨.skipped, row⟩
          simp only [Bool.false_eq_true, if_false, stepsLeft] at hput ⊢
          omega
  | admitted =>
      have hput := hput ⟨.changed, pool.op y row⟩
      simp only [stepsLeft] at hput ⊢
      omega
  | changed =>
      have hput := hput ⟨.counted (pool.counted + 1), row⟩
      simp only [stepsLeft] at hput
      change (pool.put y ⟨.counted (pool.counted + 1), row⟩).left < pool.left
      omega
  | counted number =>
      have hfinished := hput ⟨.finished, row⟩
      have hraised (percent : Nat) := hput ⟨.raised percent, row⟩
      simp only [stepsLeft] at hfinished hraised
      dsimp only
      split
      · dsimp only
        omega
      · rename_i percent _
        have hraised := hraised percent
        dsimp only
        omega
  | raised percent =>
      have hput := hput ⟨.finished, row⟩
      simp only [stepsLeft] at hput ⊢
      omega
  | finished | skipped => cases hdone

/-- As long as a pool is not done, one of its tasks can come nearer to its end. -/
theorem exists_left_step_lt {pool : RowPool} (hdone : pool.isDone = false) (p : Progress) :
    ∃ y, (pool.step p y).1.left < pool.left := by
  obtain ⟨task, htask, hnot⟩ := List.all_eq_false.mp hdone
  obtain ⟨y, hy⟩ := List.mem_iff_getElem?.mp htask
  exact ⟨y, left_step_lt hy (Bool.eq_false_iff.mpr hnot) p⟩

end Darkroom.Image.RowPool
