import Darkroom.Json.Coded

/-!
# Values read before their kind is known

A record may name its kind in one of its members. All of it is then read before the kind is known,
so every number in it has to have a value, every text has to be one, also where a member is skipped
later on, and nesting is limited. A variant that carries nothing may then also be written with an
empty object.
-/

namespace Darkroom.Json

/-- How deep such a record may be nested. What is read before its kind is known is read by a reader
that calls itself, and that has a limit. -/
def maxNesting : Nat := 127

/-- An only member that holds an empty object, written with `null`. With this both forms of a
variant that carries nothing are read alike later on. -/
def unitMember : List (Option String × Json) → List (Option String × Json)
  | [(key, .object [])] => [(key, .null)]
  | members => members

mutual

/-- A value with everything in it read. Numbers stay as they are written, but those that are no
doubles are faults. -/
def settled? : Json → Option Json
  | .null => some .null
  | .bool b => some (.bool b)
  | .number n => if n.toFloat?.isSome then some (.number n) else none
  | .text none => none
  | .text (some s) => some (.text (some s))
  | .array items => (settledItems? items).map .array
  | .object members => (settledMembers? members).map fun members => .object (unitMember members)

def settledItems? : List Json → Option (List Json)
  | [] => some []
  | v :: rest =>
    match settled? v, settledItems? rest with
    | some v, some rest => some (v :: rest)
    | _, _ => none

def settledMembers? : List (Option String × Json) → Option (List (Option String × Json))
  | [] => some []
  | (none, _) :: _ => none
  | (some key, v) :: rest =>
    match settled? v, settledMembers? rest with
    | some v, some rest => some ((some key, v) :: rest)
    | _, _ => none

end

/-- A record that names its kind: in the member with the given key, or as the first item of an array.
Returns the name and the rest. -/
def kind? (key : String) (v : Json) : Option (String × Json) :=
  if maxNesting < v.nesting then none
  else match settled? v with
    | some (.array (.text (some name) :: rest)) => some (name, .array rest)
    | some (.object members) =>
      match member? key members with
      | some (some (.text (some name))) =>
        some (name, .object (members.filter fun m => m.1 != some key))
      | _ => none
    | _ => none

/-- A record with the member that names its kind in front. What is not a record is left as it is. -/
def ofKind (key name : String) : Json → Json
  | .object members => .object ((some key, str name) :: members)
  | v => v

end Darkroom.Json
