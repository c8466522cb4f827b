import Darkroom.Color

/-!
# One value for each channel
-/

namespace Darkroom

/-- A stored component of a pixel. Unlike a channel it is a single number of every pixel. -/
inductive Component where
  | red
  | green
  | blue
  | alpha
  deriving DecidableEq

def Component.channel : Component → Channel
  | red => .red
  | green => .green
  | blue => .blue
  | alpha => .alpha

/-- A value for each of the five channels. A structure rather than a function, so that values can be
compared and stored. -/
structure PerChannel (α : Type) where
  luminosity : α
  red : α
  green : α
  blue : α
  alpha : α
  deriving DecidableEq

namespace PerChannel

variable {α β : Type}

def get (p : PerChannel α) : Channel → α
  | .luminosity => p.luminosity
  | .red => p.red
  | .green => p.green
  | .blue => p.blue
  | .alpha => p.alpha

def set (p : PerChannel α) (channel : Channel) (value : α) : PerChannel α :=
  match channel with
  | .luminosity => { p with luminosity := value }
  | .red => { p with red := value }
  | .green => { p with green := value }
  | .blue => { p with blue := value }
  | .alpha => { p with alpha := value }

def ofFn (f : Channel → α) : PerChannel α :=
  ⟨f .luminosity, f .red, f .green, f .blue, f .alpha⟩

def map (f : α → β) (p : PerChannel α) : PerChannel β :=
  ofFn fun c => f (p.get c)

/-- The values in the order of the channels, which is also their order where they are stored. -/
def toList (p : PerChannel α) : List α :=
  Channel.all.map p.get

/-- Five values in the order of the channels. A list of any other length is refused. -/
def ofList? : List α → Option (PerChannel α)
  | [luminosity, red, green, blue, alpha] => some ⟨luminosity, red, green, blue, alpha⟩
  | _ => none

end PerChannel

end Darkroom
