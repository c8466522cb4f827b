import Darkroom.Json.Basic
import Darkroom.Text.Hex

/-!
# Tokens of JSON

A text of JSON is cut into brackets, marks and scalars. Blanks between tokens are the space, the
tab, the newline and the carriage return.
-/

namespace Darkroom.Json

/-- A smallest part of a JSON text. Scalars are tokens as a whole, so a reader need not look at
characters. -/
inductive Token where
  | beginArray
  | endArray
  | beginObject
  | endObject
  | comma
  | colon
  | null
  | bool (value : Bool)
  | number (value : Numeral)
  | text (value : Option String)

namespace Token

/-! ## Texts -/

def hexQuad? (a b c d : Char) : Option Nat := do
  let a ← Text.Hex.digit? a
  let b ← Text.Hex.digit? b
  let c ← Text.Hex.digit? c
  let d ← Text.Hex.digit? d
  pure (((a * 16 + b) * 16 + c) * 16 + d)

def isHighSurrogate (n : Nat) : Bool :=
  0xD800 ≤ n && n ≤ 0xDBFF

def isLowSurrogate (n : Nat) : Bool :=
  0xDC00 ≤ n && n ≤ 0xDFFF

/-- The character of a surrogate pair: each half gives ten bits, and the code points start behind
those of a single unit. -/
def joinSurrogates (high low : Nat) : Char :=
  Char.ofNat (0x10000 + (high - 0xD800) * 0x400 + (low - 0xDC00))

/-- The character that a backslash and one character stand for. The slash may be escaped, though
nobody has to. -/
def unescape? : Char → Option Char
  | '"' => some '"'
  | '\\' => some '\\'
  | '/' => some '/'
  | 'b' => some '\x08'
  | 'f' => some '\x0c'
  | 'n' => some '\n'
  | 'r' => some '\r'
  | 't' => some '\t'
  | _ => none

/-- A part of a text between quotation marks: a character, or half of a surrogate pair. The halves
are joined only at the end, since two escapes are needed for one character. -/
inductive Piece where
  | char (c : Char)
  | half (unit : Nat)

def Piece.ofUnit (n : Nat) : Piece :=
  if isHighSurrogate n || isLowSurrogate n then .half n else .char (Char.ofNat n)

/-- Joins the halves that stand side by side. A half that stands alone leaves no text, as it is no
character. -/
def joinPieces : List Piece → Option (List Char)
  | [] => some []
  | .char c :: rest => (joinPieces rest).map (c :: ·)
  | .half n :: .half m :: rest =>
    if isHighSurrogate n && isLowSurrogate m then
      (joinPieces rest).map (joinSurrogates n m :: ·)
    else none
  | .half _ :: _ => none

def consPiece (piece : Piece) (r : List Piece × List Char) : List Piece × List Char :=
  (piece :: r.1, r.2)

/-- Reads up to the closing quotation mark. Returns the pieces before it and the text after it. A
control below the space may not stand there by itself, only as an escape. -/
def readPieces : List Char → Option (List Piece × List Char)
  | [] => none
  | '"' :: rest => some ([], rest)
  | '\\' :: 'u' :: a :: b :: c :: d :: rest =>
    match hexQuad? a b c d with
    | none => none
    | some n => (readPieces rest).map (consPiece (.ofUnit n))
  | '\\' :: c :: rest =>
    match unescape? c with
    | none => none
    | some c => (readPieces rest).map (consPiece (.char c))
  | c :: rest =>
    if c.toNat < 0x20 ∨ c = '\\' then none else (readPieces rest).map (consPiece (.char c))

/-- Reading a text uses up at least its closing quotation mark. -/
theorem readPieces_length {s : List Char} {r : List Piece × List Char}
    (h : readPieces s = some r) : r.2.length < s.length := by
  fun_induction readPieces s generalizing r with
  | case1 => simp at h
  | case2 => simp at h; simp [← h]
  | case3 => simp at h
  | case4 a b c d rest n hn ih =>
    obtain ⟨q, hq, rfl⟩ := Option.map_eq_some_iff.1 h
    have := ih hq
    simp only [consPiece, List.length_cons]
    omega
  | case5 => simp at h
  | case6 c rest hx c' hc ih =>
    obtain ⟨q, hq, rfl⟩ := Option.map_eq_some_iff.1 h
    have := ih hq
    simp only [consPiece, List.length_cons]
    omega
  | case7 => simp at h
  | case8 c rest h1 h2 h3 hc ih =>
    obtain ⟨q, hq, rfl⟩ := Option.map_eq_some_iff.1 h
    have := ih hq
    simp only [consPiece, List.length_cons]
    omega

/-! ## All tokens -/

/-- Whether a character can be part of a number. All that follow each other are taken together, and
then have to be one number. -/
def isNumberChar (c : Char) : Bool :=
  ('0' ≤ c && c ≤ '9') || c == '-' || c == '+' || c == '.' || c == 'e' || c == 'E'

def isSpace (c : Char) : Bool :=
  c == ' ' || c == '\n' || c == '\t' || c == '\r'

/-- The tokens of a text; nothing when a part of it is no token. Words such as `null` need nothing
behind them that ends them. -/
def lex : List Char → Option (List Token)
  | [] => some []
  | '[' :: rest => (lex rest).map (.beginArray :: ·)
  | ']' :: rest => (lex rest).map (.endArray :: ·)
  | '\x7b' :: rest => (lex rest).map (.beginObject :: ·)
  | '\x7d' :: rest => (lex rest).map (.endObject :: ·)
  | ',' :: rest => (lex rest).map (.comma :: ·)
  | ':' :: rest => (lex rest).map (.colon :: ·)
  | 'n' :: 'u' :: 'l' :: 'l' :: rest => (lex rest).map (.null :: ·)
  | 't' :: 'r' :: 'u' :: 'e' :: rest => (lex rest).map (.bool true :: ·)
  | 'f' :: 'a' :: 'l' :: 's' :: 'e' :: rest => (lex rest).map (.bool false :: ·)
  | '"' :: rest =>
    match h : readPieces rest with
    | none => none
    | some r =>
      have := readPieces_length h
      (lex r.2).map (.text ((joinPieces r.1).map String.ofList) :: ·)
  | c :: rest =>
    if isSpace c then lex rest
    else if isNumberChar c then
      match Numeral.read? (c :: rest.takeWhile isNumberChar) with
      | none => none
      | some n =>
        have := (List.dropWhile_sublist isNumberChar (l := rest)).length_le
        (lex (rest.dropWhile isNumberChar)).map (.number n :: ·)
    else none
termination_by s => s.length
decreasing_by all_goals simp only [List.length_cons]; omega

end Token

end Darkroom.Json
