import Darkroom.Text.Lines
import Darkroom.Text.Hex

/-!
# Percent escapes

A word of the text log holds no blank, no control character and none of `%`, `;` and `,`. Each
such character is written as the octets of its UTF-8 form, an octet as `%` and two upper-case
digits. Reading collects octets and asks at the end whether they are UTF-8, so escapes may also
spell any other character.
-/

namespace Darkroom.Text

/-- Why a text is no escaped word. The faults cite the text as it is escaped, either all of it or
the pair. -/
inductive EscapeFault where
  /-- Fewer than two octets, or a broken character, follow a percent sign in `text`. -/
  | truncated (text : List Char)
  /-- The two octets after a percent sign are no hexadecimal number. -/
  | badPair (pair : List Char)
  /-- The octets that `text` stands for are not UTF-8. -/
  | notUtf8 (text : List Char)
  deriving DecidableEq

namespace Percent

/-- The characters that do not stand for themselves: those that separate fields, tuples and numbers,
those that end a line, and the sign of an escape. -/
def isSpecial (c : Char) : Bool :=
  c == '%' || c == ';' || c == ',' || isBlank c || isControl c

def encodeByte (b : UInt8) : List Char :=
  '%' :: Hex.upperPair b

def encodeChar (c : Char) : List Char :=
  if isSpecial c then (String.utf8EncodeChar c).flatMap encodeByte else [c]

/-- The escaped form of a text. Decoding it gives the text back, and it has no character that
separates anything. -/
def encode (text : List Char) : List Char :=
  text.flatMap encodeChar

/-- The octets that the rest of the escaped text `whole` stands for. After a percent sign come two
octets: two characters of one octet, or one of two octets, which is no number. -/
def octets (whole : List Char) : List Char → Except EscapeFault (List UInt8)
  | [] => .ok []
  | '%' :: rest =>
    match rest with
    | [] => .error (.truncated whole)
    | c :: rest =>
      if c.utf8Size = 2 then .error (.badPair [c])
      else if c.utf8Size ≠ 1 then .error (.truncated whole)
      else match rest with
        | [] => .error (.truncated whole)
        | d :: rest =>
          if d.utf8Size ≠ 1 then .error (.truncated whole)
          else match Hex.pair? c d with
            | none => .error (.badPair [c, d])
            | some b => (octets whole rest).map (b :: ·)
  | c :: rest => (octets whole rest).map (String.utf8EncodeChar c ++ ·)

def ofUtf8? (bytes : List UInt8) : Option (List Char) :=
  (String.fromUTF8? ⟨bytes.toArray⟩).map String.toList

/-- The text that an escaped word stands for. Escapes may spell a character octet by octet, so
whether the octets are a text can be asked only at the end. -/
def decode (text : List Char) : Except EscapeFault (List Char) :=
  match octets text text with
  | .error fault => .error fault
  | .ok bytes =>
    match ofUtf8? bytes with
    | none => .error (.notUtf8 text)
    | some chars => .ok chars

end Percent

end Darkroom.Text
