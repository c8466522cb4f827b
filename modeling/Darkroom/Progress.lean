/-!
# Progress and cancellation

A run reports how far it is as a percentage that never falls. An observer hears of a percentage only
when it is larger than all it heard before, and may ask for cancellation when it hears one.
Cancellation is a flag that stays set; work looks at it between its units.

A report has two parts, which workers may interleave: raising the stored value, and delivering it to
the observer.
-/

namespace Darkroom

/-- Who hears of the progress: what was heard so far, last first, and from which percentage on
cancellation is asked for. Of all that an observer may do this is what matters to a run. -/
structure Observer where
  heard : List Nat
  cancelFrom : Option Nat
  deriving DecidableEq

/-- How far a run is. What is stored and what was delivered are separate numbers, because another
report may come between raising the one and the other. -/
structure Progress where
  value : Nat
  delivered : Nat
  cancelled : Bool
  observer : Option Observer
  deriving DecidableEq

namespace Progress

/-- The progress of a run that nobody observes. Cancellation can still be asked for, but nobody
hears of a percentage. -/
def start : Progress :=
  ⟨0, 0, false, none⟩

def observed (cancelFrom : Option Nat) : Progress :=
  ⟨0, 0, false, some ⟨[], cancelFrom⟩⟩

def isRunning (p : Progress) : Bool :=
  !p.cancelled

/-- Asks for cancellation. Nothing ever takes it back, so whoever reads the flag late still finds it
set. -/
def cancel (p : Progress) : Progress :=
  { p with cancelled := true }

/-- What the observer heard, in order. It is empty without an observer, whatever was reported. -/
def heard (p : Progress) : List Nat :=
  match p.observer with
  | none => []
  | some o => o.heard.reverse

/-! ## Reports -/

/-- Raises the stored value. The larger of two values stays, so reports may come in any order. -/
def raise (p : Progress) (percent : Nat) : Progress :=
  { p with value := max p.value percent }

/-- Tells the observer of a percentage, if it is news. A report that was overtaken by a later one is
not told any more, so what is heard never falls. -/
def deliver (p : Progress) (percent : Nat) : Progress :=
  match p.observer with
  | none => p
  | some o =>
    if percent ≤ p.delivered then p
    else
      let asks := match o.cancelFrom with
        | none => false
        | some n => n ≤ percent
      { p with
        delivered := percent
        cancelled := p.cancelled || asks
        observer := some { o with heard := percent :: o.heard } }

/-- Reports a percentage, at most 100. A report that is no news changes nothing at all, so the
observer cannot hear a percentage twice. -/
def post (p : Progress) (percent : Nat) : Progress :=
  let percent := min percent 100
  if percent ≤ p.value then p else (p.raise percent).deliver percent

/-- The percentage of `done` out of `total` units inside the band from `first` to `last`. More than
all units count as all, so the band is never left. -/
def percentage (done total first last : Nat) : Nat :=
  first + (last - first) * min done total / total

/-- Reports `done` of `total` units inside a band. Work without units has nothing to report. -/
def postFraction (p : Progress) (done total first last : Nat) : Progress :=
  if total = 0 then p else p.post (percentage done total first last)

end Progress

end Darkroom
