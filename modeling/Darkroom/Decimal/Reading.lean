import Darkroom.Text.Integer

/-!
# Reading doubles

A decimal with an optional sign, point and exponent, or one of the names of the special values in
any case. The value is the double nearest to the decimal; a decimal too large for a double reads as
infinity.
-/

namespace Darkroom.Decimal

inductive FloatFault where
  | empty
  | invalid
  deriving DecidableEq

def FloatFault.message : FloatFault → String
  | empty => "cannot parse float from empty string"
  | invalid => "invalid float literal"

/-- The longest run of digits at the start of a text, and what follows it. There may be none, and
what that means is left to the caller. -/
def spanDigits : List Char → List Nat × List Char
  | [] => ([], [])
  | c :: rest =>
    match Text.Integer.digit? c with
    | none => ([], c :: rest)
    | some d =>
      let (digits, after) := spanDigits rest
      (d :: digits, after)

def ofDigits (digits : List Nat) : Nat :=
  digits.foldl (fun value d => value * 10 + d) 0

/-- The double nearest to `digits * 10 ^ exp`. Beyond the range of doubles the power of ten is not
computed: the value is infinity or zero. -/
def nearest (digits : Nat) (exp : Int) : Float :=
  let size : Int := (Text.Integer.natDigits digits).length
  if digits = 0 then 0.0
  else if 400 < exp + size then Float.ofScientific 1 false 400
  else if exp + size < -400 then 0.0
  else Float.ofScientific digits (decide (exp < 0)) exp.natAbs

/-- The exponent behind its mark: an optional sign and at least one digit, up to the end. It may be
arbitrarily large, and what it does then is for `nearest` to say. -/
def readExponent? (text : List Char) : Option Int :=
  let (negative, rest) := match text with
    | '+' :: rest => (false, rest)
    | '-' :: rest => (true, rest)
    | rest => (false, rest)
  match spanDigits rest with
  | ([], _) => none
  | (digits, []) => some (if negative then -(ofDigits digits : Int) else ofDigits digits)
  | (_, _ :: _) => none

/-- A decimal without a sign: digits, with a point before, among or behind them, and an exponent.
The point may be missing, and so may the digits on one side of it, but not on both. -/
def readMagnitude? (text : List Char) : Option Float :=
  let (whole, rest) := spanDigits text
  let (fraction, rest) := match rest with
    | '.' :: rest => spanDigits rest
    | rest => ([], rest)
  if whole.isEmpty ∧ fraction.isEmpty then none
  else
    let value (exp : Int) : Float :=
      nearest (ofDigits (whole ++ fraction)) (exp - fraction.length)
    match rest with
    | [] => some (value 0)
    | 'e' :: rest => (readExponent? rest).map value
    | 'E' :: rest => (readExponent? rest).map value
    | _ => none

/-- The special value that a text names, in any case of its letters. The writer of the log has one
spelling for each, all of which are among these. -/
def readSpecial? (text : List Char) : Option Float :=
  let name := text.map Char.toLower
  if name = "nan".toList then some (0.0 / 0.0)
  else if name = "inf".toList ∨ name = "infinity".toList then some (1.0 / 0.0)
  else none

/-- The double that a text stands for. At most one sign may stand in front, of a special value as
well. -/
def readFloat (text : List Char) : Except FloatFault Float :=
  let unsigned (rest : List Char) : Except FloatFault Float :=
    match (readMagnitude? rest).or (readSpecial? rest) with
    | none => .error .invalid
    | some x => .ok x
  match text with
  | [] => .error .empty
  | '+' :: rest => unsigned rest
  | '-' :: rest => (unsigned rest).map Float.neg
  | rest => unsigned rest

end Darkroom.Decimal
