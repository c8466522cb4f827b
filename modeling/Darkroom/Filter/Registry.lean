import Darkroom.Filter.Parameters

/-!
# Registries

A registry says which kinds of filters can be rebuilt from an action, and in which versions. A kind
that is registered again gets the new range of versions.
-/

namespace Darkroom

/-- The versions from `low` to `high`; none when `low` is larger. A range may begin below the first
version and end behind the present one. -/
structure VersionRange where
  low : Int32
  high : Int32
  deriving DecidableEq

def VersionRange.holds (r : VersionRange) (version : Int32) : Bool :=
  r.low ≤ version && version ≤ r.high

/-- For each kind of filter the versions it is registered for, if it is registered. As kinds have
different identifiers, this says what the identifiers stand for. -/
structure Registry where
  versions : FilterKind → Option VersionRange

namespace Registry

def empty : Registry :=
  ⟨fun _ => none⟩

/-- Registers a kind for a range of versions. The range takes the place of an earlier one and is not
joined with it. -/
def registerVersions (r : Registry) (kind : FilterKind) (range : VersionRange) : Registry :=
  ⟨fun k => if k = kind then some range else r.versions k⟩

def register (r : Registry) (kind : FilterKind) : Registry :=
  r.registerVersions kind ⟨1, FilterKind.version⟩

/-- Every kind registered. It is what histories are replayed with, unless a caller brings a registry
of its own. -/
def builtin : Registry :=
  FilterKind.all.foldl register empty

/-! ## Looking up -/

def kind? (r : Registry) (identifier : String) : Option FilterKind :=
  (FilterKind.ofIdentifier? identifier).filter fun kind => (r.versions kind).isSome

/-- The kind of an identifier, if it is registered for a version. All look-ups that need a version
go through this one, so they agree on what is supported. -/
def entry? (r : Registry) (identifier : String) (version : Int32) : Option FilterKind :=
  (FilterKind.ofIdentifier? identifier).filter fun kind =>
    (r.versions kind).any (·.holds version)

def isSupported (r : Registry) (identifier : String) (version : Int32) : Bool :=
  (r.entry? identifier version).isSome

/-- The filter that an action describes. Only the identifier and the version decide whether there is
one; parameters that do not fit take their defaults. -/
def create? (r : Registry) (a : Action) : Option Filter :=
  (r.entry? a.identifier a.version).map fun kind => .new (.ofAction kind a)

/-- What people call a registered kind. The versions do not matter for this, so there is a name also
where no version is supported. -/
def displayName? (r : Registry) (identifier : String) : Option String :=
  (r.kind? identifier).map (·.displayName)

def identifiers (r : Registry) : List String :=
  (FilterKind.all.filter fun kind => (r.versions kind).isSome).map (·.identifier)

def size (r : Registry) : Nat :=
  r.identifiers.length

end Registry

end Darkroom
