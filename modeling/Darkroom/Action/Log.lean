import Darkroom.Action.Basic
import Darkroom.Decimal.Layout
import Darkroom.Text.Percent

/-!
# Writing the text log

A log has one record a line. An action is a block: the record `action` with identifier, version and
category, a record `name` if it has a display name, a record `param` for each parameter, and the
record `end`. Identifiers, names and texts are percent escaped, so that a space always separates
fields.
-/

namespace Darkroom

namespace Category

def word : Category → String
  | reproducible => "reproducible"
  | complex => "complex"
  | documented => "documented"

def ofWord? (word : List Char) : Option Category :=
  [reproducible, complex, documented].find? fun c => c.word.toList == word

end Category

namespace ParamValue

/-- The layout of doubles in the log: the shortest digits that read back. With the point in place
down to ten thousandths, and an exponent without a plus sign. -/
def doubleFormat : Decimal.Format where
  positionalFrom := -4
  plusExponent := false
  tie := .awayFromZero

/-- A double in the log. Not-a-number and the infinities have words here, unlike in a sidecar, so
the log holds every double. -/
def writeDouble (x : Float) : List Char :=
  match Decimal.FloatKind.ofFloat x with
  | .nan => "NaN".toList
  | .infinite negative => if negative then "-inf".toList else "inf".toList
  | .finite negative magnitude =>
    (if negative then ['-'] else []) ++ doubleFormat.magnitude magnitude

/-- The word for the kind of a value, which stands before the value, so that the reader never
guesses. -/
def kind : ParamValue → String
  | int _ => "int"
  | double _ => "double"
  | bool _ => "bool"
  | string _ => "string"
  | blob _ => "blob"
  | points _ => "points"
  | rects _ => "rects"

def writeTuple (numbers : List Int32) : List Char :=
  [','].intercalate (numbers.map fun n => Text.Integer.write n.toInt)

/-- Tuples of numbers with semicolons between them. As an empty tuple is never written, the empty
text is left for the empty list. -/
def writeTuples (tuples : List (List Int32)) : List Char :=
  [';'].intercalate (tuples.map writeTuple)

/-- A value as the last field of its record. It holds no space, since texts are escaped, and no
newline; a list is empty exactly if the field is. -/
def write : ParamValue → List Char
  | int v => Text.Integer.write v.toInt
  | double v => writeDouble v
  | bool v => if v then "true".toList else "false".toList
  | string v => Text.Percent.encode v.toList
  | blob v => Text.Hex.lower v
  | points v => writeTuples (v.map fun p => [p.x, p.y])
  | rects v => writeTuples (v.map fun r => [r.x, r.y, r.width, r.height])

end ParamValue

namespace Action

/-- The record of a parameter. The value comes last, so that nothing has to be told apart behind
it. -/
def writeParameter (p : Parameter) : List Char :=
  "param ".toList ++ Text.Percent.encode p.name.toList ++ ' ' :: p.value.kind.toList
    ++ ' ' :: p.value.write

/-- The records of an action, one a line. Parameters keep their order, so that the action is read
back as it was and not only as an equal one. -/
def records (a : Action) : List (List Char) :=
  [ "action ".toList ++ Text.Percent.encode a.identifier.toList
      ++ ' ' :: Text.Integer.write a.version.toInt ++ ' ' :: a.category.word.toList ]
    ++ (match a.displayName with
        | none => []
        | some name => ["name ".toList ++ Text.Percent.encode name.toList])
    ++ a.parameters.map writeParameter
    ++ ["end".toList]

def write (a : Action) : List Char :=
  a.records.flatMap (· ++ ['\n'])

/-- The blocks of several actions, one after the other. There is no header and nothing between them,
so logs can be joined by appending one to another. -/
def writeAll (actions : List Action) : List Char :=
  actions.flatMap write

end Action

end Darkroom
