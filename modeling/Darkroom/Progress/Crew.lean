import Darkroom.Progress

/-!
# Reports of several workers

Workers report to the same progress without waiting for each other. Each part of a report, raising
the stored value and telling the observer, is taken by itself, and the parts of different workers may
follow each other in any order. A schedule says whose turn it is.
-/

namespace Darkroom.Progress

/-- The first part of a report. It leaves over what to tell the observer, if the value grew;
`deliver` is the second part. -/
def announce (p : Progress) (percent : Nat) : Progress × Option Nat :=
  let percent := min percent 100
  if percent ≤ p.value then (p, none) else (p.raise percent, some percent)

/-- What a worker has still to report, and what it has raised but not told yet. It takes up no new
report before it has told the last one. -/
structure Worker where
  reports : List Nat
  pending : Option Nat
  deriving DecidableEq

namespace Worker

def isDone (w : Worker) : Bool :=
  w.reports.isEmpty && w.pending.isNone

/-- The next part of the reports of a worker. A worker that is done does nothing. -/
def step (w : Worker) (p : Progress) : Worker × Progress :=
  match w.pending, w.reports with
  | some percent, _ => ({ w with pending := none }, p.deliver percent)
  | none, percent :: rest =>
    let (p, pending) := p.announce percent
    (⟨rest, pending⟩, p)
  | none, [] => (w, p)

end Worker

structure Crew where
  workers : List Worker
  progress : Progress
  deriving DecidableEq

namespace Crew

/-- Workers before their first report, each with a list of percentages. The progress may be one on
which others have reported before. -/
def start (reports : List (List Nat)) (p : Progress) : Crew :=
  ⟨reports.map fun r => ⟨r, none⟩, p⟩

def isDone (c : Crew) : Bool :=
  c.workers.all Worker.isDone

/-- One worker takes its next step. Nothing happens if it is done, or if there is none of this
number, so every list of numbers is a schedule. -/
def step (c : Crew) (i : Nat) : Crew :=
  match c.workers[i]? with
  | none => c
  | some w =>
    let (w, p) := w.step c.progress
    ⟨c.workers.set i w, p⟩

/-- Workers take steps in a given order. Reports are complete only if the schedule is long enough
for all of them. -/
def run (c : Crew) (schedule : List Nat) : Crew :=
  schedule.foldl step c

end Crew

end Darkroom.Progress
