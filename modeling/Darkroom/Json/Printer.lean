import Darkroom.Json.Basic
import Darkroom.Text.Hex

/-!
# Writing JSON

Two layouts: all on one line, or one item a line with two blanks for each level. Texts escape the
quotation mark, the backslash and the controls below the space; all else is written as it is.
-/

namespace Darkroom.Json

inductive Layout where
  | compact
  | indented

/-! ## Texts -/

/-- One character between quotation marks. The five controls that have a short form are written with
it, the others by their code point. -/
def escapeChar (c : Char) : List Char :=
  if c = '"' then ['\\', '"']
  else if c = '\\' then ['\\', '\\']
  else if c = '\x08' then ['\\', 'b']
  else if c = '\x0c' then ['\\', 'f']
  else if c = '\n' then ['\\', 'n']
  else if c = '\r' then ['\\', 'r']
  else if c = '\t' then ['\\', 't']
  else if c.toNat < 0x20 then
    ['\\', 'u', '0', '0', Text.Hex.lowerDigit (c.toNat / 16), Text.Hex.lowerDigit (c.toNat % 16)]
  else [c]

/-- A text between quotation marks. Characters beyond the controls are not escaped, so the output is
as readable as the text. -/
def quote (s : String) : List Char :=
  '"' :: s.toList.flatMap escapeChar ++ ['"']

/-! ## Values -/

namespace Layout

/-- What stands in front of an item at the given level. The two layouts differ in this and in the
colon, and in nothing else. -/
def lineBreak (layout : Layout) (level : Nat) : List Char :=
  match layout with
  | compact => []
  | indented => '\n' :: List.replicate (2 * level) ' '

def colon (layout : Layout) : List Char :=
  match layout with
  | compact => [':']
  | indented => [':', ' ']

end Layout

/-- Items, each already written, between two brackets. Without items the brackets stand together in
both layouts. -/
def bracketed (layout : Layout) (level : Nat) (opening closing : Char) :
    List (List Char) → List Char
  | [] => [opening, closing]
  | item :: rest =>
    opening :: layout.lineBreak (level + 1) ++ item
      ++ rest.flatMap (fun item => ',' :: layout.lineBreak (level + 1) ++ item)
      ++ layout.lineBreak level ++ [closing]

mutual

/-- A value as text. A text with half a surrogate pair has no written form and becomes `null`;
values that were made and not read have no such text. -/
def write (layout : Layout) (level : Nat) : Json → List Char
  | .null => "null".toList
  | .bool true => "true".toList
  | .bool false => "false".toList
  | .number n => n.write
  | .text (some s) => quote s
  | .text none => "null".toList
  | .array items => bracketed layout level '[' ']' (writeItems layout (level + 1) items)
  | .object members =>
    bracketed layout level '\x7b' '\x7d' (writeMembers layout (level + 1) members)

def writeItems (layout : Layout) (level : Nat) : List Json → List (List Char)
  | [] => []
  | v :: rest => write layout level v :: writeItems layout level rest

def writeMembers (layout : Layout) (level : Nat) :
    List (Option String × Json) → List (List Char)
  | [] => []
  | (key, v) :: rest =>
    (quote (key.getD "") ++ layout.colon ++ write layout level v)
      :: writeMembers layout level rest

end

def compact (v : Json) : String :=
  String.ofList (v.write .compact 0)

/-- A value with one item a line, as files have it for people to read. -/
def indented (v : Json) : String :=
  String.ofList (v.write .indented 0)

end Darkroom.Json
