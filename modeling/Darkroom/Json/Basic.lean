import Darkroom.Json.Numeral

/-!
# JSON values

A value keeps the order of its members and repeated keys, since a reader of a record refuses
repetition, and keeps numbers as they are written. A text is `none` when its escapes leave half of a
surrogate pair alone: it stands for no text, but a reader that skips the value need not notice.
-/

namespace Darkroom

inductive Json where
  | null
  | bool (value : Bool)
  | number (value : Numeral)
  | text (value : Option String)
  | array (items : List Json)
  | object (members : List (Option String × Json))

namespace Json

/-- A text. Every string is one; only what is read from escapes may be none. -/
def str (s : String) : Json :=
  .text (some s)

def int (n : Int) : Json :=
  .number (.ofInt n)

/-- A double. There is no number for not-a-number and the infinities; `null` stands in, although a
reader of doubles does not take it back. -/
def double (x : Float) : Json :=
  match Decimal.FloatKind.ofFloat x with
  | .finite negative magnitude =>
    match Numeral.ofFinite negative magnitude with
    | some n => .number n
    | none => .null
  | _ => .null

/-- An object with the given members, in order. The order is that of the fields of a type, and
readers do not depend on it. -/
def record (members : List (String × Json)) : Json :=
  .object (members.map fun m => (some m.1, m.2))

/-! ## Nesting -/

mutual

/-- How deep arrays and objects are nested in a value. A limit on this is what keeps readers that
call themselves from running out of room. -/
def nesting : Json → Nat
  | .array items => nestingItems items + 1
  | .object members => nestingMembers members + 1
  | _ => 0

def nestingItems : List Json → Nat
  | [] => 0
  | v :: rest => max (nesting v) (nestingItems rest)

def nestingMembers : List (Option String × Json) → Nat
  | [] => 0
  | (_, v) :: rest => max (nesting v) (nestingMembers rest)

end

end Json

end Darkroom
