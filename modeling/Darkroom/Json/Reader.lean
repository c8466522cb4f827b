import Darkroom.Json.Token

/-!
# Reading JSON

The reader takes one token after the other and keeps a stack of the arrays and objects that are
still open. Any nesting is accepted; a text is a value when its tokens complete exactly one.
-/

namespace Darkroom.Json

/-- An array or object that is still open, with what it holds so far, last first. An object that
waits for a value also holds the key for it. -/
inductive Frame where
  | array (items : List Json)
  | object (members : List (Option String × Json)) (key : Option String)

/-- What the reader waits for. The stack lists the open frames, innermost first, so that nesting
takes up no room but this list. -/
inductive Reading where
  /-- A value. -/
  | value (stack : List Frame)
  /-- The first value of an array, or its end. -/
  | firstItem (stack : List Frame)
  /-- The first key of an object, or its end. -/
  | firstKey (stack : List Frame)
  /-- A further key of an object. -/
  | nextKey (members : List (Option String × Json)) (stack : List Frame)
  /-- The colon behind a key. -/
  | colon (members : List (Option String × Json)) (key : Option String) (stack : List Frame)
  /-- What follows a complete value. -/
  | after (value : Json) (stack : List Frame)

namespace Reading

def beginValue (stack : List Frame) : Token → Option Reading
  | .beginArray => some (.firstItem stack)
  | .beginObject => some (.firstKey stack)
  | .null => some (.after .null stack)
  | .bool b => some (.after (.bool b) stack)
  | .number n => some (.after (.number n) stack)
  | .text s => some (.after (.text s) stack)
  | _ => none

/-- One token. Each state has the tokens that it waits for, and all others end the reading without a
value. -/
def step : Reading → Token → Option Reading
  | .value stack, token => beginValue stack token
  | .firstItem stack, .endArray => some (.after (.array []) stack)
  | .firstItem stack, token => beginValue (.array [] :: stack) token
  | .firstKey stack, .endObject => some (.after (.object []) stack)
  | .firstKey stack, .text key => some (.colon [] key stack)
  | .nextKey members stack, .text key => some (.colon members key stack)
  | .colon members key stack, .colon => some (.value (.object members key :: stack))
  | .after v (.array items :: stack), .comma => some (.value (.array (v :: items) :: stack))
  | .after v (.array items :: stack), .endArray =>
    some (.after (.array (v :: items).reverse) stack)
  | .after v (.object members key :: stack), .comma => some (.nextKey ((key, v) :: members) stack)
  | .after v (.object members key :: stack), .endObject =>
    some (.after (.object ((key, v) :: members).reverse) stack)
  | _, _ => none

def run : Reading → List Token → Option Reading
  | reading, [] => some reading
  | reading, token :: rest => (reading.step token).bind (run · rest)

end Reading

/-- The value that tokens make up. There must be one, complete, with nothing behind it. -/
def ofTokens? (tokens : List Token) : Option Json :=
  match Reading.run (.value []) tokens with
  | some (.after v []) => some v
  | _ => none

/-- The value that a text stands for. It is cut into tokens first, so a text that is no JSON in its
last character is refused as a whole. -/
def read? (text : List Char) : Option Json :=
  (Token.lex text).bind ofTokens?

end Darkroom.Json
