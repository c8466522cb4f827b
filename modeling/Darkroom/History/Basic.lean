import Darkroom.Action.Reading
import Darkroom.Filter.Registry

/-!
# Histories

A history is the list of the actions that led from a base image to the present one. It is written
as a log in which the actions follow each other.
-/

namespace Darkroom

/-- The actions that led to an image, first to last. -/
abbrev History := List Action

namespace History

/-- Whether every action is said to be reproducible and can be rebuilt. This can be told without
running anything, and on an image that is not null it decides whether a replay is exact. -/
def isReproducible (h : History) (registry : Registry) : Bool :=
  h.all fun a => a.category = .reproducible && registry.isSupported a.identifier a.version

def toBytes (h : History) : List UInt8 :=
  Action.bytesOf (Action.writeAll h)

/-- The history of a stored log. An empty log is the empty history, and not an error as it is where
a single action is wanted. -/
def ofBytes (bytes : List UInt8) : Except LogError History :=
  (Action.textOf bytes).bind Action.readAll

/-- Whether two histories have equal actions, one by one. Like equality of actions it is not
reflexive where a parameter is not-a-number. -/
def sameAs : History → History → Bool
  | [], [] => true
  | a :: rest, b :: others => a.sameAs b && sameAs rest others
  | _, _ => false

end History

end Darkroom
