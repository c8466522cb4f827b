import Darkroom.Image.Rows
import Darkroom.Progress.Crew

/-!
# Rows side by side

The rows of an image may be worked on at the same time, each by a task of its own. A task reads the
cancellation flag, changes its row, counts it as finished, and reports how many are finished; the
count and the progress are common to all tasks. Each of these steps is taken by itself, and the steps
of different tasks may follow each other in any order. A schedule says whose turn it is, and when
cancellation is asked for.
-/

namespace Darkroom.Image

/-- How far the task of a row is. Between two phases any other task may take a step, so there is one
for each thing that tasks have in common. -/
inductive RowPhase where
  | waiting
  /-- The flag was read, and the row is to be changed. -/
  | admitted
  | changed
  /-- The row was the one of this number to be counted. -/
  | counted (number : Nat)
  /-- The stored value was raised, and the observer is to be told. -/
  | raised (percent : Nat)
  | finished
  | skipped
  deriving DecidableEq

structure RowTask where
  phase : RowPhase
  row : Row
  deriving DecidableEq

def RowTask.isDone (task : RowTask) : Bool :=
  match task.phase with
  | .finished | .skipped => true
  | .waiting | .admitted | .changed | .counted _ | .raised _ => false

/-- Row work under way: what it does, its tasks from top to bottom, and how many rows are counted.
The progress is not a part of it, since others share it. -/
structure RowPool where
  band : Band
  op : RowOp
  tasks : List RowTask
  counted : Nat

inductive Turn where
  | row (y : Nat)
  | cancel

namespace RowPool

def start (image : Image) (band : Band) (op : RowOp) : RowPool :=
  ⟨band, op, image.rows.map fun row => ⟨.waiting, row⟩, 0⟩

/-- The image with the rows as they are. It can be asked for at any time, also while tasks are under
way. -/
def image (pool : RowPool) (frame : Image) : Image :=
  frame.withRows (pool.tasks.map (·.row))

def isDone (pool : RowPool) : Bool :=
  pool.tasks.all RowTask.isDone

/-- The percentage to report when a number of rows is finished. The number is that of the count at
which the row was counted, not that of the row. -/
def percentage (pool : RowPool) (number : Nat) : Nat :=
  Progress.percentage number pool.tasks.length pool.band.first pool.band.last

def report? (pool : RowPool) (y : Nat) : Option Nat :=
  match pool.tasks[y]? with
  | some ⟨.counted number, _⟩ => some (pool.percentage number)
  | _ => none

/-- The pool with another task for a row, and all other tasks as they were. -/
def put (pool : RowPool) (y : Nat) (task : RowTask) : RowPool :=
  { pool with tasks := pool.tasks.set y task }

/-- The task of a row takes its next step. One step reads or changes at most one thing that tasks
have in common. -/
def step (pool : RowPool) (p : Progress) (y : Nat) : RowPool × Progress :=
  match pool.tasks[y]? with
  | none => (pool, p)
  | some ⟨.waiting, row⟩ => (pool.put y ⟨if p.isRunning then .admitted else .skipped, row⟩, p)
  | some ⟨.admitted, row⟩ => (pool.put y ⟨.changed, pool.op y row⟩, p)
  | some ⟨.changed, row⟩ =>
    let number := pool.counted + 1
    ({ pool.put y ⟨.counted number, row⟩ with counted := number }, p)
  | some ⟨.counted number, row⟩ =>
    match p.announce (pool.percentage number) with
    | (p, none) => (pool.put y ⟨.finished, row⟩, p)
    | (p, some percent) => (pool.put y ⟨.raised percent, row⟩, p)
  | some ⟨.raised percent, row⟩ => (pool.put y ⟨.finished, row⟩, p.deliver percent)
  | some ⟨.finished, _⟩ | some ⟨.skipped, _⟩ => (pool, p)

def turn (s : RowPool × Progress) : Turn → RowPool × Progress
  | .row y => s.1.step s.2 y
  | .cancel => (s.1, s.2.cancel)

def run (s : RowPool × Progress) (schedule : List Turn) : RowPool × Progress :=
  schedule.foldl turn s

end RowPool

end Darkroom.Image
