import Darkroom.Filter.Apply
import Darkroom.History.Basic
import Darkroom.Image.Fingerprint

/-!
# Replay

A replay runs the actions of a history again, one after the other, starting from a base image.
An action that cannot be rebuilt, or only documents something, is skipped, and one whose filter fails
leaves the image as it is. Whatever may keep the result from being that of the recorded runs is noted
as an issue.
-/

namespace Darkroom

inductive StepStatus where
  | applied
  | skipped
  | failed
  deriving DecidableEq

/-- Why the replay of an action may not give what was recorded. The second reason is also given for
an action that was applied. -/
inductive SkipReason where
  /-- The identifier and version are not registered. -/
  | unknownAction
  /-- The action was not recorded as reproducible. -/
  | notReproducible (category : Category)
  /-- The filter failed. -/
  | failed (error : FilterError)
  deriving DecidableEq

/-- An action that may not have been reproduced. The index is that of the action in the history, so
that two issues of one filter can be told apart. -/
structure ReplayIssue where
  index : Nat
  identifier : String
  version : Int32
  reason : SkipReason
  deriving DecidableEq

/-- What happened in one step. It says the same as the issues and the counts of a replay, one action
at a time. -/
structure ReplayStep where
  index : Nat
  identifier : String
  version : Int32
  status : StepStatus
  issue : Option SkipReason
  deriving DecidableEq

/-- Where a replay stands: the number of actions behind it, the image so far, how many actions were
applied, and the issues, first to last. -/
structure Replay where
  index : Nat
  image : Image
  applied : Nat
  issues : List ReplayIssue

namespace Category

def name : Category → String
  | reproducible => "Reproducible"
  | complex => "Complex"
  | documented => "Documented"

end Category

def SkipReason.message : SkipReason → String
  | unknownAction => "no registered filter for this identifier and version"
  | notReproducible category =>
    let name := category.name
    s!"action was recorded as {name} and cannot be replayed exactly"
  | failed error =>
    let reason := error.message
    s!"filter failed: {reason}"

namespace Replay

def start (base : Image) : Replay :=
  ⟨0, base, 0, []⟩

/-! ## Steps -/

/-- What an action does to an image: what becomes of it, the issue, and the image. A complex action
is applied and still has an issue, as what it depended on besides its record is not known. -/
def effect (registry : Registry) (image : Image) (a : Action) :
    StepStatus × Option SkipReason × Image :=
  match registry.create? a with
  | none => (.skipped, some .unknownAction, image)
  | some filter =>
    if a.category = .documented then (.skipped, some (.notReproducible a.category), image)
    else if image.isNull then (.failed, some (.failed .nullImage), image)
    else
      match filter.apply image none .start with
      | .error e => (.failed, some (.failed e), image)
      | .ok result =>
        let issue :=
          if a.category = .complex then some (SkipReason.notReproducible a.category) else none
        (.applied, issue, result.image)

/-- One step. The index and the number of applied actions are counted here and nowhere else. -/
def step (registry : Registry) (r : Replay) (a : Action) : ReplayStep × Replay :=
  let (status, issue, image) := effect registry r.image a
  let noted := issue.toList.map fun reason => ⟨r.index, a.identifier, a.version, reason⟩
  (⟨r.index, a.identifier, a.version, status, issue⟩,
    { index := r.index + 1
      image
      applied := if status = .applied then r.applied + 1 else r.applied
      issues := r.issues ++ noted })

def finish (registry : Registry) (r : Replay) (h : History) : Replay :=
  h.foldl (fun r a => (step registry r a).2) r

def trace (registry : Registry) : Replay → History → List (ReplayStep × Replay)
  | _, [] => []
  | r, a :: rest =>
    let (seen, r) := step registry r a
    (seen, r) :: trace registry r rest

/-- Replays a history on an image. It always comes to the end of the history: no action, whatever is
wrong with it, keeps the later ones from being replayed. -/
def run (registry : Registry) (base : Image) (h : History) : Replay :=
  finish registry (start base) h

/-! ## One step at a time -/

/-- A replay under way: where it stands, and the actions before it. It holds no registry, so each
step is given one. -/
structure Steps where
  reached : Replay
  rest : History

namespace Steps

def start (base : Image) (h : History) : Steps :=
  ⟨.start base, h⟩

/-- Takes the next step, if there is one. The steps before are not kept, only where they have
led. -/
def next? (registry : Registry) (s : Steps) : Option (ReplayStep × Steps) :=
  match s.rest with
  | [] => none
  | a :: rest =>
    let (seen, reached) := step registry s.reached a
    some (seen, ⟨reached, rest⟩)

/-- Asks for the next step a number of times. When there is none left, asking again changes
nothing. -/
def advance (registry : Registry) : Nat → Steps → Steps
  | 0, s => s
  | n + 1, s =>
    match s.next? registry with
    | none => s
    | some (_, s) => advance registry n s

def finish (registry : Registry) (s : Steps) : Replay :=
  (s.advance registry s.rest.length).reached

end Steps

/-! ## Outcome -/

/-- Whether every action was applied and is reproducible. That is so exactly if nothing was
noted. -/
def isExact (r : Replay) : Bool :=
  r.issues.isEmpty

/-- The identifiers of the actions that were not applied. An action that was applied can only have
the issue of being complex, and that issue is left out here. -/
def failedIdentifiers (r : Replay) : List String :=
  (r.issues.filter fun issue => issue.reason ≠ .notReproducible .complex).map (·.identifier)

/-- A replayed image that is not the expected one: the first pixel that differs, and the issues,
which may say why it does. -/
structure Mismatch where
  firstDifference : Point
  issues : List ReplayIssue

def Mismatch.message (m : Mismatch) : String :=
  let x := m.firstDifference.x.toInt
  let y := m.firstDifference.y.toInt
  let n := m.issues.length
  s!"replayed image differs from the expected image at ({x}, {y}) with {n} replay issue(s)"

/-- Replays a history and compares the result with an expected image. Only pixels are compared, not
whether there is alpha, and issues alone are no mismatch. -/
def verify (registry : Registry) (base : Image) (h : History) (expected : Image) :
    Except Mismatch Unit :=
  let r := run registry base h
  match r.image.firstDifference? expected with
  | none => .ok ()
  | some firstDifference => .error ⟨firstDifference, r.issues⟩

end Replay

end Darkroom
