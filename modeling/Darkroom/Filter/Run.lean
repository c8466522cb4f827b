import Darkroom.Filter.Apply
import Darkroom.Filter.Parameters

/-!
# Runs

A run is the record of one use of a filter. It is idle, then running, then either finished, cancelled
or failed, and an ended run stays as it is. The record keeps all states it has been in, so whoever
looks at it from elsewhere sees a part of this list. There is a target image exactly when the run is
finished; after a cancelled run the destination shows how far the work got.
-/

namespace Darkroom

/-- The state of a run. A failed run keeps its error; the other states say all there is to say. -/
inductive RunState where
  | idle
  | running
  | finished
  | cancelled
  | failed (error : FilterError)
  deriving DecidableEq

def RunState.isTerminal : RunState → Bool
  | idle | running => false
  | finished | cancelled | failed _ => true

/-- The record of one use of a filter. The states are kept as a list, so that what others may have
seen on the way is a part of the record. The filter is kept as it is left behind, which may differ
from the one given. -/
structure FilterRun where
  filter : Filter
  source : Image
  reference : Option Image
  /-- Where the result is stored; null until there is one. -/
  destination : Image
  /-- All states after the first one, last first. -/
  states : List RunState
  progress : Progress

namespace FilterRun

def new (filter : Filter) (source : Image) (reference : Option Image) (progress : Progress) :
    FilterRun :=
  ⟨filter, source, reference, .null, [], progress⟩

def state (r : FilterRun) : RunState :=
  r.states.headD .idle

/-- Moves a run to a state. Nothing here says which state may follow which; the callers see to
that. -/
def enter (r : FilterRun) (state : RunState) : FilterRun :=
  { r with states := state :: r.states }

/-- Asks for cancellation. It is allowed in every state, and does nothing by itself: the run finds
out when it looks at the flag. -/
def cancel (r : FilterRun) : FilterRun :=
  { r with progress := r.progress.cancel }

/-- The target image of a finished run. What a cancelled run left in its destination is not offered
as a result. -/
def target? (r : FilterRun) : Option Image :=
  if r.state = .finished then some r.destination else none

def action (r : FilterRun) : Action :=
  r.filter.action

/-- What keeps the images of a run from being worked on. A null source and a null reference are the
same error, and come before a depth that differs. -/
def fault? (r : FilterRun) : Option FilterError :=
  if r.source.isNull then some .nullImage
  else match Filter.measured r.source r.reference with
    | .error e => some e
    | .ok _ => none

/-- Stores what the filter left behind and ends the run. The flag is looked at for the last time
here: a request that comes later finds the run finished. -/
def conclude (r : FilterRun) (result : Filtered) : FilterRun :=
  let r :=
    { r with filter := result.filter, destination := result.image, progress := result.progress }
  if r.progress.isRunning then { r with progress := r.progress.post 100 }.enter .finished
  else r.enter .cancelled

/-- The work of a running run. Images are looked at before the flag, so a run that cannot work fails
even if it was cancelled before. -/
def execute (r : FilterRun) : FilterRun :=
  match r.fault? with
  | some e => r.enter (.failed e)
  | none =>
    if r.progress.isRunning then
      match r.filter.apply r.source r.reference r.progress with
      | .error e => r.enter (.failed e)
      | .ok result => r.conclude result
    else r.enter .cancelled

/-- Runs the filter. A run that is not idle stays as it is, so a second call does nothing, whatever
became of the first. -/
def run (r : FilterRun) : FilterRun :=
  if r.state = .idle then
    { r.enter .running with progress := r.progress.post 0 }.execute
  else r

end FilterRun

namespace Filter

/-- Runs a filter to its end and returns the target image with the action that describes the run.
Nobody can cancel such a run, so the last case never happens. -/
def applied (f : Filter) (source : Image) : Except FilterError (Image × Action) :=
  let r := (FilterRun.new f source none .start).run
  match r.state, r.target? with
  | .failed e, _ => .error e
  | _, some image => .ok (image, r.action)
  | _, none => .error .nullImage

/-- Runs filters one after the other, each on the image before it. A filter that fails leaves the
image as it is and no action. Returns what each filter gave, the last image, and the actions. -/
def chained : Image → List Filter →
    List (Except FilterError Image) × Image × List Action
  | image, [] => ([], image, [])
  | image, f :: rest =>
    match f.applied image with
    | .error e =>
      let (results, last, actions) := chained image rest
      (.error e :: results, last, actions)
    | .ok (next, action) =>
      let (results, last, actions) := chained next rest
      (.ok next :: results, last, action :: actions)

end Filter

end Darkroom
