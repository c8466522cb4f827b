import Darkroom.Geometry

/-!
# Actions

An action is the record of one filter run: which filter, in which version, how faithful the record
is, and the parameters in the order in which they were first set. Parameters form a map with
insertion order: setting a key again replaces its value in place.
-/

namespace Darkroom

/-- How faithfully an action describes the pixels that it produced. Only the first kind promises
that a replay gives the recorded image. -/
inductive Category where
  /-- Replaying the action gives the same pixels. -/
  | reproducible
  /-- The pixels also depend on something that the action does not record. -/
  | complex
  /-- The action only says that something happened. -/
  | documented
  deriving DecidableEq, Inhabited

/-- The value of a parameter. The kinds are those that the text log has a word for, and points and
rectangles are kinds of their own so that a list of either may be empty without losing its kind. -/
inductive ParamValue where
  | int (value : Int64)
  | double (value : Float)
  | bool (value : Bool)
  | string (value : String)
  | blob (value : List UInt8)
  | points (value : List Point)
  | rects (value : List Rect)

structure Parameter where
  name : String
  value : ParamValue

/-- The record of one filter run, from which the run can be repeated. The display name is for
readers only: no filter looks at it, and two actions that differ in nothing else are equal. -/
structure Action where
  identifier : String
  version : Int32
  category : Category
  displayName : Option String
  parameters : List Parameter

namespace ParamValue

/-- Equality of values. Doubles compare as numbers, so NaN equals nothing and the zeros are equal,
which is why this is not equality in the logic. -/
def sameAs : ParamValue → ParamValue → Bool
  | int a, int b => a == b
  | double a, double b => a == b
  | bool a, bool b => a == b
  | string a, string b => a == b
  | blob a, blob b => a == b
  | points a, points b => a == b
  | rects a, rects b => a == b
  | _, _ => false

end ParamValue

namespace Action

/-- An action without parameters, to which `add` brings them one by one. It counts as reproducible
until something says otherwise. -/
def new (identifier : String) (version : Int32) : Action :=
  ⟨identifier, version, .reproducible, none, []⟩

def isNull (a : Action) : Bool :=
  a.identifier == ""

/-! ## Parameters -/

/-- Sets a key in a list of parameters: in place if it is there, else at the end. So the order is
that in which keys were first set, and a list without repeated keys stays without. -/
def setIn (key : String) (value : ParamValue) : List Parameter → List Parameter
  | [] => [⟨key, value⟩]
  | p :: rest => if p.name = key then ⟨key, value⟩ :: rest else p :: setIn key value rest

def add (a : Action) (key : String) (value : ParamValue) : Action :=
  { a with parameters := setIn key value a.parameters }

/-- The value of a key. Of repeated keys the first counts; only an action that was read from a
sidecar can have any. -/
def value? (a : Action) (key : String) : Option ParamValue :=
  (a.parameters.find? (·.name = key)).map (·.value)

def has (a : Action) (key : String) : Bool :=
  (a.value? key).isSome

/-- Equality of actions: the same filter, version and category, and the same values under the same
keys. The order of the parameters and the display name do not count. With as many parameters on both
sides it is enough to look up those of one side, as long as no key is repeated. -/
def sameAs (a b : Action) : Bool :=
  a.identifier == b.identifier && a.version == b.version && a.category == b.category
    && a.parameters.length == b.parameters.length
    && a.parameters.all fun p =>
      match b.value? p.name with
      | some v => v.sameAs p.value
      | none => false

end Action

/-! ## Typed lookup -/

/-- A type that a parameter can be read as. A value of another kind is not converted, except that
integers also serve as doubles and as truth values. -/
class OfParam (α : Type) where
  ofParam? : ParamValue → Option α

/-- A type whose values can be set as parameters. Integers of all widths become the one kind of
integer that is stored, so reading needs `OfParam` to check the range again. -/
class ToParam (α : Type) where
  toParam : α → ParamValue

export OfParam (ofParam?)
export ToParam (toParam)

instance : OfParam Int64 where
  ofParam?
    | .int v => some v
    | _ => none

instance : OfParam Int32 where
  ofParam?
    | .int v =>
      if -2147483648 ≤ v.toInt ∧ v.toInt ≤ 2147483647 then some (Int32.ofInt v.toInt) else none
    | _ => none

instance : OfParam UInt32 where
  ofParam?
    | .int v =>
      if 0 ≤ v.toInt ∧ v.toInt ≤ 4294967295 then some (UInt32.ofNat v.toInt.toNat) else none
    | _ => none

instance : OfParam Float where
  ofParam?
    | .double v => some v
    | .int v => some (Float.ofInt v.toInt)
    | _ => none

instance : OfParam Bool where
  ofParam?
    | .bool v => some v
    | .int v => some (v != 0)
    | _ => none

instance : OfParam String where
  ofParam?
    | .string v => some v
    | _ => none

instance : OfParam (List UInt8) where
  ofParam?
    | .blob v => some v
    | _ => none

instance : OfParam (List Point) where
  ofParam?
    | .points v => some v
    | _ => none

instance : OfParam (List Rect) where
  ofParam?
    | .rects v => some v
    | _ => none

instance : ToParam Int64 where
  toParam := .int

instance : ToParam Int32 where
  toParam v := .int v.toInt64

instance : ToParam UInt32 where
  toParam v := .int (Int64.ofInt v.toNat)

instance : ToParam UInt16 where
  toParam v := .int (Int64.ofInt v.toNat)

instance : ToParam Float where
  toParam := .double

instance : ToParam Float32 where
  toParam v := .double v.toFloat

instance : ToParam Bool where
  toParam := .bool

instance : ToParam String where
  toParam := .string

instance : ToParam (List UInt8) where
  toParam := .blob

instance : ToParam (List Point) where
  toParam := .points

instance : ToParam (List Rect) where
  toParam := .rects

/-- The value of a key as the wanted type; a default when the key is not set or holds another kind
of value. A filter is rebuilt by these look-ups alone, so an action with a missing or odd parameter
still makes a filter. -/
def Action.get {α : Type} [OfParam α] (a : Action) (key : String) (default : α) : α :=
  ((a.value? key).bind ofParam?).getD default

end Darkroom
