import Mathlib.Data.String.Basic
import Darkroom.Filter.Registry

/-!
# Registries as ordered maps

A catalog keeps one entry for each identifier in an ordered map, with all that is needed to answer for
it: the versions, the name that people know, and what makes a filter of an action. Where a registry
asks a kind for its identifier each time, a catalog asks once, when the kind is registered.
-/

namespace Darkroom

/-! ## Registrations -/

/-- One registration of a kind: for all versions up to the present one, or for a range of versions.
Both may come for the same kind, in any order. -/
inductive Registration where
  | present (kind : FilterKind)
  | versions (kind : FilterKind) (range : VersionRange)
  deriving DecidableEq

namespace Registration

def kind : Registration → FilterKind
  | present kind => kind
  | versions kind _ => kind

/-- The versions that a kind is registered for. The present version is also the last, as versions
are numbered from one. -/
def range : Registration → VersionRange
  | present _ => ⟨1, FilterKind.version⟩
  | versions _ range => range

def identifier (call : Registration) : String :=
  call.kind.identifier

end Registration

namespace Registry

def registering (r : Registry) : Registration → Registry
  | .present kind => r.register kind
  | .versions kind range => r.registerVersions kind range

def registered (calls : List Registration) : Registry :=
  calls.foldl registering empty

end Registry

/-! ## Catalogs -/

/-- What a catalog has under an identifier. All of it is replaced at once by a later
registration. -/
structure Catalog.Entry where
  versions : VersionRange
  displayName : String
  construct : Action → Filter

/-- Entries in the order of their identifiers. This is what registries are in practice; `Registry`
is what they answer. -/
structure Catalog where
  entries : Std.TreeMap String Catalog.Entry

namespace Catalog

/-- The entry of a kind for a range of versions. The constructor does not look at the version
again. -/
def Entry.of (kind : FilterKind) (range : VersionRange) : Entry where
  versions := range
  displayName := kind.displayName
  construct := fun a => .new (.ofAction kind a)

def empty : Catalog :=
  ⟨∅⟩

/-- Registers a kind for a range of versions, in place of what stands under its identifier. The
range may be empty, and the identifier is registered all the same. -/
def registerVersions (c : Catalog) (kind : FilterKind) (range : VersionRange) : Catalog :=
  ⟨c.entries.insert kind.identifier (.of kind range)⟩

def register (c : Catalog) (kind : FilterKind) : Catalog :=
  c.registerVersions kind ⟨1, FilterKind.version⟩

def registering (c : Catalog) : Registration → Catalog
  | .present kind => c.register kind
  | .versions kind range => c.registerVersions kind range

def registered (calls : List Registration) : Catalog :=
  calls.foldl registering empty

/-! ## Looking up -/

/-- The entry of an identifier, if it is for a version. An entry for other versions counts as no
entry, both for support and for rebuilding. -/
def find? (c : Catalog) (identifier : String) (version : Int32) : Option Entry :=
  c.entries[identifier]?.filter fun entry => entry.versions.holds version

def isSupported (c : Catalog) (identifier : String) (version : Int32) : Bool :=
  (c.find? identifier version).isSome

/-- The filter that an action describes. It is made by the entry, so it is the last registration
that counts. -/
def create? (c : Catalog) (a : Action) : Option Filter :=
  (c.find? a.identifier a.version).map fun entry => entry.construct a

/-- The name that people know for an identifier. It is given for any version, even if the range of
versions is empty. -/
def displayName? (c : Catalog) (identifier : String) : Option String :=
  c.entries[identifier]?.map (·.displayName)

def identifiers (c : Catalog) : List String :=
  c.entries.keys

def size (c : Catalog) : Nat :=
  c.entries.size

end Catalog

end Darkroom
