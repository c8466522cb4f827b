import Darkroom.Json.Basic

/-!
# Values coded in JSON

A type that is kept in JSON has a written form and a reader. Records are objects with one member a
field; an unknown member is skipped, a repeated one refused, and a record may also be written as the
array of its fields in order. A variant is its name, or an object with the name as its only key.
-/

namespace Darkroom.Json

/-- A type with a form in JSON. Reading takes back what was written, as long as the doubles in a
value are numbers and are read exactly. -/
class Coded (α : Type) where
  toJson : α → Json
  ofJson? : Json → Option α

export Coded (toJson ofJson?)

/-! ## Scalars -/

/-- An integer between two bounds. A number with a point or an exponent is no integer, even if its
value is. -/
def intBetween? (low high : Int) : Json → Option Int
  | .number n => n.toInt?.filter fun i => low ≤ i ∧ i ≤ high
  | _ => none

instance : Coded Bool where
  toJson := .bool
  ofJson?
    | .bool b => some b
    | _ => none

instance : Coded String where
  toJson := str
  ofJson?
    | .text s => s
    | _ => none

instance : Coded Float where
  toJson := double
  ofJson?
    | .number n => n.toFloat?
    | _ => none

instance : Coded UInt8 where
  toJson n := int n.toNat
  ofJson? v := (intBetween? 0 255 v).map fun i => UInt8.ofNat i.toNat

instance : Coded UInt16 where
  toJson n := int n.toNat
  ofJson? v := (intBetween? 0 65535 v).map fun i => UInt16.ofNat i.toNat

instance : Coded UInt32 where
  toJson n := int n.toNat
  ofJson? v := (intBetween? 0 4294967295 v).map fun i => UInt32.ofNat i.toNat

instance : Coded UInt64 where
  toJson n := int n.toNat
  ofJson? v := (intBetween? 0 18446744073709551615 v).map fun i => UInt64.ofNat i.toNat

instance : Coded Int32 where
  toJson n := int n.toInt
  ofJson? v := (intBetween? (-2147483648) 2147483647 v).map Int32.ofInt

instance : Coded Int64 where
  toJson n := int n.toInt
  ofJson? v := (intBetween? (-9223372036854775808) 9223372036854775807 v).map Int64.ofInt

/-! ## Lists -/

/-- Every item of a list, or nothing when one of them cannot be read. No item is left out and no
default takes its place. -/
def readAll (read : Json → Option α) : List Json → Option (List α)
  | [] => some []
  | v :: rest =>
    match read v, readAll read rest with
    | some a, some others => some (a :: others)
    | _, _ => none

instance {α : Type} [Coded α] : Coded (List α) where
  toJson items := .array (items.map toJson)
  ofJson?
    | .array items => readAll ofJson? items
    | _ => none

/-! ## Records -/

/-- The value of a member, when its key occurs at most once. The outer `none` is a refusal: which of
two values was meant cannot be told. -/
def member? (name : String) : List (Option String × Json) → Option (Option Json)
  | [] => some none
  | (key, v) :: rest =>
    if key = some name then
      if rest.any (fun m => m.1 == some name) then none else some (some v)
    else member? name rest

/-- The values of the named members, in the order of the names. Members with other names are not
looked at, whatever they hold. -/
def members? (members : List (Option String × Json)) : List String → Option (List (Option Json))
  | [] => some []
  | name :: rest =>
    match member? name members, members? members rest with
    | some v, some others => some (v :: others)
    | _, _ => none

/-- The fields of a record, in order; a field that is not there is `none`. Every key of an object
has to be a text. An array has no more items than there are fields. -/
def fields? (names : List String) : Json → Option (List (Option Json))
  | .object members =>
    if members.all (·.1.isSome) then members? members names else none
  | .array items =>
    if items.length ≤ names.length then
      some (items.map some ++ List.replicate (names.length - items.length) none)
    else none
  | _ => none

def required [Coded α] : Option Json → Option α
  | some v => ofJson? v
  | none => none

/-- A field that takes a default when it is not there. A field that is there has to be readable, and
`null` is no absence. -/
def orElse [Coded α] (default : α) : Option Json → Option α
  | some v => ofJson? v
  | none => some default

/-- A field that may be `null`, and is `none` when it is not there. So such a field can be left out
when it is written. -/
def nullable [Coded α] : Option Json → Option (Option α)
  | none => some none
  | some .null => some none
  | some v => (ofJson? v).map some

/-! ## Variants -/

/-- A variant as its name and what it carries. A name alone carries nothing, and an object with more
than one key is no variant. -/
def variant? : Json → Option (String × Option Json)
  | .text (some name) => some (name, none)
  | .object [(some name, v)] => some (name, some v)
  | _ => none

/-- The name of a variant that carries nothing, which may also be written with `null`. -/
def unitVariant? (v : Json) : Option String :=
  match variant? v with
  | some (name, none) => some name
  | some (name, some .null) => some name
  | _ => none

def tagged (name : String) (v : Json) : Json :=
  record [(name, v)]

end Darkroom.Json
