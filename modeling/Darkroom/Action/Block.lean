import Darkroom.Action.Reading

/-!
# Blocks of the text log

The log once more, as the blocks that its lines form. A block opens with a record of the filter, its
version and the category, closes with the record `end`, and has names and parameters in between. What
a record says does not depend on the records before it, and the action of a block is made by setting
its parameters on a new action, one after the other.
-/

namespace Darkroom

/-- What a record inside a block says. Unlike the records that open and close a block, these may
come in any order and number. -/
inductive BlockEntry where
  | name (text : String)
  | parameter (p : Parameter)

/-- What the records of a block say, before anything is made of it. The entries are kept as they
come, with repeated names and keys. -/
structure Block where
  identifier : String
  version : Int32
  category : Category
  entries : List BlockEntry

namespace BlockEntry

def name? : BlockEntry → Option String
  | name text => some text
  | parameter _ => none

def parameter? : BlockEntry → Option Parameter
  | name _ => none
  | parameter p => some p

end BlockEntry

namespace Block

/-! ## The action of a block -/

def names (b : Block) : List String :=
  b.entries.filterMap BlockEntry.name?

/-- The parameters of a block in the order of their records. A key that is set twice stands here
twice; in the action it does not. -/
def parameters (b : Block) : List Parameter :=
  b.entries.filterMap BlockEntry.parameter?

/-- The action of a block. Of its names the last counts, and of the parameters under one key too;
but the place of a key is that of the first one. -/
def action (b : Block) : Action :=
  let a := b.parameters.foldl (fun a p => a.add p.name p.value) (Action.new b.identifier b.version)
  { a with category := b.category, displayName := b.names.getLast? }

/-! ## Records -/

/-- The first word of a record, and what follows the first space. A record without a space has no
fields, which here is the same as empty ones. -/
def cut (record : List Char) : List Char × List Char :=
  let (word, fields) := Text.splitOnce ' ' record
  (word, fields.getD [])

/-- The filter, version and category that a block opens with; the entries are still to come. The
fields are read from the left, so the first that is wrong is the fault. -/
def readHeader (fields : List Char) : Except RecordFault Block :=
  match Text.splitOn ' ' fields with
  | [identifier, version, category] => do
    let identifier ← ParamValue.readEscaped identifier
    let version ← (Text.Integer.readInt32 version).mapError .badVersion
    match Category.ofWord? category with
    | none => .error (.unknownCategory category)
    | some c => .ok ⟨identifier, version, c, []⟩
  | _ => .error .actionFields

def readOpening (record : List Char) : Except RecordFault Block :=
  let (word, fields) := cut record
  if word = "action".toList then readHeader fields else .error (.unexpectedRecord word)

/-- The parameter of a record: its name, the word for its kind and, behind the second space, its
value. -/
def readParameter (fields : List Char) : Except RecordFault Parameter :=
  match Text.splitOnce ' ' fields with
  | (name, some fields) =>
    match Text.splitOnce ' ' fields with
    | (kind, some text) => do
      let name ← ParamValue.readEscaped name
      let value ← ParamValue.read kind text
      .ok ⟨name, value⟩
    | (_, none) => .error .parameterFields
  | (_, none) => .error .parameterFields

/-- What a record inside a block says. A record that would open another block is not expected here,
since blocks do not nest. -/
def readEntry (record : List Char) : Except RecordFault BlockEntry :=
  let (word, fields) := cut record
  if word = "name".toList then (ParamValue.readEscaped fields).map .name
  else if word = "param".toList then (readParameter fields).map .parameter
  else .error (.unexpectedRecord word)

/-- Whether a record closes a block. Only its word counts; fields behind it are ignored. -/
def closes (record : List Char) : Bool :=
  (cut record).1 = "end".toList

/-- Records that say what blocks say: one block after the other, each from the record that opens it to
the one that closes it. -/
inductive Spelled : List Block → List (List Char) → Prop
  | nil : Spelled [] []
  | cons {b : Block} {blocks : List Block} {opening closing : List Char}
      {inner rest : List (List Char)}
      (hopening : readOpening opening = .ok { b with entries := [] })
      (hinner : inner.map readEntry = b.entries.map .ok)
      (hclosing : closes closing) (hrest : Spelled blocks rest) :
      Spelled (b :: blocks) (opening :: inner ++ closing :: rest)

end Block

end Darkroom
