import Darkroom.Filter.Plan
import Darkroom.Filter.Run
import Darkroom.Image.RowPool

/-!
# Runs that are watched

While a run goes on, others may look at the state that it has published and may ask for cancellation
at any moment; when the run is at rest it may be called again. The run is cut into the steps between
which this can happen. A state is published first and entered into the record after that. The rows of
an image are worked on side by side.
-/

namespace Darkroom

/-- What a run does next. Between two stages everyone else may act, so each stage does one thing
that others can notice: publish, enter, look at the flag, report, or change pixels. -/
inductive RunStage where
  | resting
  | publishing (state : RunState)
  /-- The state is published, and not yet entered into the record. -/
  | entering (state : RunState)
  | opening
  | examining
  | admitting
  | reporting (reports : List Nat) (work : Work)
  | rows (pool : Image.RowPool)
  /-- The flag is to be looked at before the next spot. -/
  | spots (repair : SpotRepair) (image : Image) (done : Nat) (rest : List Rect)
  | patching (repair : SpotRepair) (image : Image) (done : Nat) (rect : Rect) (rest : List Rect)
  /-- The filter has returned. -/
  | checking
  | closing

/-- A run with the copy of its state that others see. The two are kept apart because publishing a
state and entering it are different moments. -/
structure WatchedRun where
  record : FilterRun
  published : RunState
  stage : RunStage
  /-- A percentage that was raised, and that the observer is to be told before the next step. -/
  telling : Option Nat

/-- What may happen next. Any move may come at any time, as nothing keeps the others from acting
between two steps of the run. -/
inductive Move where
  /-- The run is called, if it is at rest. -/
  | call
  | cancel
  /-- The run takes its next step. -/
  | go
  /-- The task of a row takes its next step. -/
  | row (y : Nat)
  deriving DecidableEq

namespace WatchedRun

def new (filter : Filter) (source : Image) (reference : Option Image) (progress : Progress) :
    WatchedRun :=
  ⟨.new filter source reference progress, .idle, .resting, none⟩

def goTo (w : WatchedRun) (stage : RunStage) : WatchedRun :=
  { w with stage := stage }

def withProgress (w : WatchedRun) (p : Progress) : WatchedRun :=
  { w with record := { w.record with progress := p } }

/-- Raises the value, and leaves over what to tell the observer. Telling is a step of its own, since
the observer may ask for cancellation in it. -/
def report (w : WatchedRun) (percent : Nat) : WatchedRun :=
  let (p, telling) := w.record.progress.announce percent
  { w.withProgress p with telling := telling }

/-- The first step of the work. Work on rows is handed to a pool, and spots are repaired by the run
itself. -/
def begin (source : Image) : Work → RunStage
  | .rows band op => .rows (.start source band op)
  | .spots repair => .spots repair source 0 repair.spots

def store (w : WatchedRun) (image : Image) : WatchedRun :=
  { w with record := { w.record with destination := image }, stage := .checking }

/-- The next step of the run, when the observer is to be told nothing. The steps are those of
`FilterRun.run`, cut where others can act. -/
def advance (w : WatchedRun) : WatchedRun :=
  match w.stage with
  | .resting => w
  | .publishing state => { w with published := state, stage := .entering state }
  | .entering state =>
    { w with
      record := w.record.enter state
      stage := if state = .running then .opening else .resting }
  | .opening => (w.report 0).goTo .examining
  | .examining =>
    match w.record.fault? with
    | some e => w.goTo (.publishing (.failed e))
    | none => w.goTo .admitting
  | .admitting =>
    if w.record.progress.isRunning then
      match w.record.filter.plan w.record.source w.record.reference with
      | .error e => w.goTo (.publishing (.failed e))
      | .ok plan =>
        { w with
          record := { w.record with filter := plan.filter }
          stage := .reporting plan.reports plan.work }
    else w.goTo (.publishing .cancelled)
  | .reporting [] work => w.goTo (begin w.record.source work)
  | .reporting (percent :: rest) work => (w.report percent).goTo (.reporting rest work)
  | .rows pool => if pool.isDone then w.store (pool.image w.record.source) else w
  | .spots _ image _ [] => w.store image
  | .spots repair image done (rect :: rest) =>
    if w.record.progress.isRunning then w.goTo (.patching repair image done rect rest)
    else w.store image
  | .patching repair image done rect rest =>
    match Repair.spot? image rect with
    | none => w.goTo (.spots repair image (done + 1) rest)
    | some s =>
      (w.report (Progress.percentage (done + 1) repair.spots.length 0 100)).goTo
        (.spots repair (Repair.one repair.interpolation repair.direction image s) (done + 1) rest)
  | .checking =>
    if w.record.progress.isRunning then w.goTo .closing
    else w.goTo (.publishing .cancelled)
  | .closing => (w.report 100).goTo (.publishing .finished)

/-- One move. A move that does not apply, such as a call of a run that is under way, changes
nothing. -/
def move (w : WatchedRun) : Move → WatchedRun
  | .call =>
    match w.stage with
    | .resting => if w.record.state = .idle then w.goTo (.publishing .running) else w
    | _ => w
  | .cancel => { w with record := w.record.cancel }
  | .go =>
    match w.telling with
    | some percent => { w.withProgress (w.record.progress.deliver percent) with telling := none }
    | none => w.advance
  | .row y =>
    match w.telling, w.stage with
    | none, .rows pool =>
      let (pool, p) := pool.step w.record.progress y
      (w.withProgress p).goTo (.rows pool)
    | _, _ => w

def moves (w : WatchedRun) (schedule : List Move) : WatchedRun :=
  schedule.foldl move w

/-- Whether the run still has to look at the flag for the last time. Until then asking for
cancellation makes a difference, and after that none. -/
def isOpen (w : WatchedRun) : Bool :=
  match w.stage with
  | .resting => w.record.state = .idle
  | .publishing state | .entering state => state = .running
  | .closing => false
  | _ => true

end WatchedRun

end Darkroom
