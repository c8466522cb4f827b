import Darkroom.Decimal.Binary
import Darkroom.History.Replay

/-!
# Diagnostics

A replay can be watched with a clock: how long each step took and how many pixels it changed. The
clock is whatever the caller brings; it may move on whenever it is read.

A duration is a number of nanoseconds. It is exchanged as a number of seconds, read to the nearest
nanosecond with ties to even.
-/

namespace Darkroom

/-! ## Durations -/

/-- A length of time, in whole nanoseconds, so that durations can be compared and added without
rounding. -/
structure Duration where
  nanoseconds : Nat
  deriving DecidableEq

namespace Duration

/-- Seconds as a double: the sum of the whole seconds and the rest. Both parts are rounded before
they are added, so this is not always the nearest double. -/
def seconds (d : Duration) : Float :=
  Float.ofNat (d.nanoseconds / 1000000000) + Float.ofNat (d.nanoseconds % 1000000000) / 1000000000.0

def milliseconds (d : Duration) : Float :=
  d.seconds * 1000.0

/-- The duration of a number of seconds that is not negative and below 2 ^ 64. It is the nearest
number of nanoseconds to the exact value of the double. -/
def ofSeconds? (x : Float) : Option Duration :=
  match Decimal.FloatKind.ofFloat x with
  | .finite negative magnitude =>
    if negative ∧ magnitude.m ≠ 0 then none
    else if magnitude.m <<< magnitude.q.toNat < 1 <<< (64 + (-magnitude.q).toNat) then
      some ⟨Decimal.roundDiv ((magnitude.m <<< magnitude.q.toNat) * 1000000000)
        (1 <<< (-magnitude.q).toNat) .toEven⟩
    else none
  | _ => none

end Duration

/-! ## What was seen -/

structure StepMetrics where
  changedPixels : Nat
  pixelCount : Nat
  deriving DecidableEq

structure StepDiagnostics where
  identifier : String
  version : Int32
  status : StepStatus
  duration : Duration
  metrics : StepMetrics

structure ReplayDiagnostics where
  dimensions : Dimensions
  depth : Depth
  steps : List StepDiagnostics
  totalDuration : Duration
  resultHash : UInt64

/-- A clock with states `σ` and readings `ι`. Nothing is assumed of it, so what is proved of a
replay with a clock holds whatever the clock does. -/
structure Clock (σ ι : Type) where
  now : σ → ι × σ
  /-- The time since a reading. -/
  elapsed : ι → σ → Duration × σ

/-- The number of pixels whose bytes differ; all of them when the geometry does. The count is that
of the image before the step. -/
def StepMetrics.between (before after : Image) : StepMetrics :=
  let changed :=
    if before.sameGeometry after then
      ((List.range before.pixelCount).filter fun i => before.pixelAt i != after.pixelAt i).length
    else before.pixelCount
  ⟨changed, before.pixelCount⟩

def ReplayDiagnostics.applied (d : ReplayDiagnostics) : Nat :=
  (d.steps.filter fun s => s.status = .applied).length

namespace Replay

variable {σ ι : Type}

/-- One step with the clock read before and behind it. The step is that of `Replay.step`; only its
duration is up to the clock. -/
def timedStep (clock : Clock σ ι) (registry : Registry) (r : Replay) (a : Action) (s : σ) :
    StepDiagnostics × Replay × σ :=
  let (begun, s) := clock.now s
  let (step, next) := r.step registry a
  let (duration, s) := clock.elapsed begun s
  (⟨step.identifier, step.version, step.status, duration, .between r.image next.image⟩, next, s)

/-- All steps. The clock is read once more when there is no action left, because the time is taken
before it is known if there is another action. -/
def timedSteps (clock : Clock σ ι) (registry : Registry) :
    Replay → History → σ → List StepDiagnostics × Replay × σ
  | r, [], s => ([], r, (clock.now s).2)
  | r, a :: rest, s =>
    let (seen, r, s) := r.timedStep clock registry a s
    let (others, r, s) := timedSteps clock registry r rest s
    (seen :: others, r, s)

/-- Replays a history with a clock. The total is measured by itself, so it need not be the sum of
the steps. -/
def timed (clock : Clock σ ι) (registry : Registry) (base : Image) (h : History) (s : σ) :
    Replay × ReplayDiagnostics × σ :=
  let (begun, s) := clock.now s
  let (steps, r, s) := timedSteps clock registry (start base) h s
  let (total, s) := clock.elapsed begun s
  (r, ⟨r.image.dimensions, r.image.depth, steps, total, r.image.contentHash⟩, s)

end Replay

end Darkroom
