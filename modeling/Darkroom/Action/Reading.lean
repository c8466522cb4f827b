import Darkroom.Action.Log
import Darkroom.Decimal.Reading
import Darkroom.Text.Lines
import Darkroom.Text.Printable

/-!
# Reading the text log

The reader takes one line after the other and holds the actions that are complete and the block that
is open. Carriage returns at the end of a line and empty lines mean nothing. The first bad line ends
the reading, and so does a block that is still open at the end of the text.
-/

namespace Darkroom

open Text (IntegerFault EscapeFault)

/-- What is wrong with a line of the log. Texts are cited as they stand in the line, still escaped,
so that they can be found there. -/
inductive RecordFault where
  | actionFields
  | badVersion (fault : IntegerFault)
  | unknownCategory (word : List Char)
  | parameterFields
  | unknownKind (word : List Char)
  | escape (fault : EscapeFault)
  | badInt (text : List Char) (fault : IntegerFault)
  | badDouble (text : List Char) (fault : Decimal.FloatFault)
  | badBool (text : List Char)
  | oddBlob (length : Nat)
  | badBlob (offset : Nat)
  | badCoordinate (text : List Char) (fault : IntegerFault)
  | coordinateCount (expected found : Nat)
  | unexpectedRecord (word : List Char)
  | openBlock

/-- Why a text is no log, or holds no action. Lines count from one, empty lines included. -/
inductive LogError where
  | notUtf8
  | empty
  | malformed (line : Nat) (fault : RecordFault)

/-! ## Wording -/

namespace RecordFault

open Text

def escapeMessage : EscapeFault → String
  | .truncated text =>
    let cited := Quoted.encode text
    s!"truncated escape in {cited}"
  | .badPair pair =>
    let cited := String.ofList pair
    s!"bad escape %{cited}"
  | .notUtf8 text =>
    let cited := Quoted.encode text
    s!"escaped text {cited} is not UTF-8"

def badValue (what : String) (text : List Char) (reason : String) : String :=
  let cited := Quoted.encode text
  s!"bad {what} {cited}: {reason}"

def message : RecordFault → String
  | actionFields => "expected identifier, version, category"
  | badVersion fault =>
    let reason := fault.message
    s!"bad version: {reason}"
  | unknownCategory word =>
    let cited := Quoted.encode word
    s!"unknown category {cited}"
  | parameterFields => "expected name, type, value"
  | unknownKind word =>
    let cited := Quoted.encode word
    s!"unknown parameter type {cited}"
  | escape fault => escapeMessage fault
  | badInt text fault => badValue "int" text fault.message
  | badDouble text fault => badValue "double" text fault.message
  | badBool text => badValue "bool" text "provided string was not `true` or `false`"
  | oddBlob length => s!"odd length hex blob ({length} digits)"
  | badBlob offset => s!"bad hex byte at offset {offset}"
  | badCoordinate text fault => badValue "coordinate" text fault.message
  | coordinateCount expected found => s!"expected {expected} coordinates, found {found}"
  | unexpectedRecord word =>
    let cited := Quoted.encode word
    s!"unexpected {cited} record"
  | openBlock => "action block is not terminated by \"end\""

end RecordFault

def LogError.message : LogError → String
  | notUtf8 => "action text is not valid UTF-8"
  | empty => "no action found in text"
  | malformed line fault =>
    let reason := fault.message
    s!"line {line}: {reason}"

/-! ## Values -/

namespace ParamValue

def readPairs (offset : Nat) : List Char → Except RecordFault (List UInt8)
  | [] => .ok []
  | [_] => .error (.badBlob offset)
  | c :: d :: rest =>
    match Text.Hex.pair? c d with
    | none => .error (.badBlob offset)
    | some b => (readPairs (offset + 2) rest).map (b :: ·)

/-- A blob: an even number of octets, each two the digits of one. The length is checked first and
counts octets of the text, not characters, so a text of any other characters may pass this check and
fail the next. -/
def readBlob (text : List Char) : Except RecordFault (List UInt8) :=
  let length := text.foldl (fun n c => n + c.utf8Size) 0
  if length % 2 ≠ 0 then .error (.oddBlob length) else readPairs 0 text

def readCoordinates : List (List Char) → Except RecordFault (List Int32)
  | [] => .ok []
  | text :: rest =>
    match Text.Integer.readInt32 text with
    | .error fault => .error (.badCoordinate text fault)
    | .ok n => (readCoordinates rest).map (n :: ·)

/-- Tuples, each made into a value; the first bad one is the fault. All numbers of a tuple are read
before they are counted, so a bad number is reported rather than a wrong count. -/
def readTuples {α : Type} (size : Nat) (make : List Int32 → Option α) :
    List (List Char) → Except RecordFault (List α)
  | [] => .ok []
  | text :: rest =>
    match readCoordinates (Text.splitOn ',' text) with
    | .error fault => .error fault
    | .ok numbers =>
      match make numbers with
      | none => .error (.coordinateCount size numbers.length)
      | some a => (readTuples size make rest).map (a :: ·)

def readList {α : Type} (size : Nat) (make : List Int32 → Option α) (text : List Char) :
    Except RecordFault (List α) :=
  if text.isEmpty then .ok [] else readTuples size make (Text.splitOn ';' text)

def point? : List Int32 → Option Point
  | [x, y] => some ⟨x, y⟩
  | _ => none

def rect? : List Int32 → Option Rect
  | [x, y, width, height] => some ⟨x, y, width, height⟩
  | _ => none

/-- An escaped text. Characters that a writer would have escaped are accepted as they are, as long
as they do not separate anything. -/
def readEscaped (text : List Char) : Except RecordFault String :=
  match Text.Percent.decode text with
  | .error fault => .error (.escape fault)
  | .ok chars => .ok (String.ofList chars)

/-- A value of the given kind. Only `true` and `false` are truth values, in lower case; numbers may
have a plus sign and leading zeros, which are not written. -/
def read (kind text : List Char) : Except RecordFault ParamValue :=
  if kind = "int".toList then
    match Text.Integer.readInt64 text with
    | .error fault => .error (.badInt text fault)
    | .ok v => .ok (.int v)
  else if kind = "double".toList then
    match Decimal.readFloat text with
    | .error fault => .error (.badDouble text fault)
    | .ok v => .ok (.double v)
  else if kind = "bool".toList then
    if text = "true".toList then .ok (.bool true)
    else if text = "false".toList then .ok (.bool false)
    else .error (.badBool text)
  else if kind = "string".toList then (readEscaped text).map .string
  else if kind = "blob".toList then (readBlob text).map .blob
  else if kind = "points".toList then (readList 2 point? text).map .points
  else if kind = "rects".toList then (readList 4 rect? text).map .rects
  else .error (.unknownKind kind)

end ParamValue

/-! ## Records -/

/-- What has been read: the complete actions, last first, and the block that is open. A name inside
a block is entered into the open action at once. -/
structure LogState where
  done : List Action
  block : Option Action

namespace LogState

def start : LogState :=
  ⟨[], none⟩

/-- The record that opens a block. It has exactly three fields, so the identifier may be empty but
holds no space that is not escaped. -/
def openBlock (fields : List Char) : Except RecordFault Action :=
  match Text.splitOn ' ' fields with
  | [identifier, version, category] => do
    let identifier ← ParamValue.readEscaped identifier
    let version ← match Text.Integer.readInt32 version with
      | .error fault => .error (.badVersion fault)
      | .ok v => .ok v
    match Category.ofWord? category with
    | none => .error (.unknownCategory category)
    | some c => .ok { Action.new identifier version with category := c }
  | _ => .error .actionFields

/-- The record of a parameter; its value is all that follows the second space. A value with a space
in it is therefore read as one text, and the kind decides if it is accepted. -/
def addParameter (action : Action) (fields : List Char) : Except RecordFault Action :=
  match Text.splitOnce ' ' fields with
  | (name, some fields) =>
    match Text.splitOnce ' ' fields with
    | (kind, some text) => do
      let name ← ParamValue.readEscaped name
      let value ← ParamValue.read kind text
      .ok (action.add name value)
    | (_, none) => .error .parameterFields
  | (_, none) => .error .parameterFields

/-- A record that is not empty: its first word, and what follows the first space. Which words are
expected depends on whether a block is open. -/
def readRecord (s : LogState) (word fields : List Char) : Except RecordFault LogState :=
  match s.block with
  | none =>
    if word = "action".toList then
      (openBlock fields).map fun action => { s with block := some action }
    else .error (.unexpectedRecord word)
  | some action =>
    if word = "name".toList then
      (ParamValue.readEscaped fields).map fun name =>
        { s with block := some { action with displayName := some name } }
    else if word = "param".toList then
      (addParameter action fields).map fun action => { s with block := some action }
    else if word = "end".toList then .ok ⟨action :: s.done, none⟩
    else .error (.unexpectedRecord word)

/-- One line. Returns at its end are dropped before it is looked at, so the line endings of other
systems make no difference. -/
def readLine (s : LogState) (line : List Char) : Except RecordFault LogState :=
  let line := Text.trimReturns line
  if line.isEmpty then .ok s
  else
    let (word, fields) := Text.splitOnce ' ' line
    s.readRecord word (fields.getD [])

/-- Lines, the first of which has the given number. The first fault ends the reading, and what was
read before it is not returned. -/
def readLines (s : LogState) (number : Nat) : List (List Char) → Except LogError LogState
  | [] => .ok s
  | line :: rest =>
    match s.readLine line with
    | .error fault => .error (.malformed number fault)
    | .ok s => s.readLines (number + 1) rest

end LogState

namespace Action

/-- The actions of a log. A block that is still open at the end is reported with the number of
lines, as no line of its own is wrong. -/
def readAll (text : List Char) : Except LogError (List Action) :=
  let lines := Text.lines text
  match LogState.start.readLines 1 lines with
  | .error e => .error e
  | .ok s =>
    match s.block with
    | some _ => .error (.malformed lines.length .openBlock)
    | none => .ok s.done.reverse

/-- The first action of a log. The whole log has to be well formed, not only the first block. -/
def read (text : List Char) : Except LogError Action :=
  match readAll text with
  | .error e => .error e
  | .ok [] => .error .empty
  | .ok (a :: _) => .ok a

def textOf (bytes : List UInt8) : Except LogError (List Char) :=
  match Text.Percent.ofUtf8? bytes with
  | none => .error .notUtf8
  | some text => .ok text

def bytesOf (text : List Char) : List UInt8 :=
  text.flatMap String.utf8EncodeChar

def toBytes (a : Action) : List UInt8 :=
  bytesOf a.write

/-- The first action of a stored log. That the octets are a text is asked before anything else. -/
def ofBytes (bytes : List UInt8) : Except LogError Action :=
  (textOf bytes).bind read

end Action

end Darkroom
