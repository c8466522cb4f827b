import Darkroom.Decimal.Layout
import Darkroom.Decimal.Reading

/-!
# Numbers of JSON

A number is kept as it is written, digit by digit, because its form decides what it can stand for:
only digits alone are an integer, and `-0` is not one.

Read as a double, digits are gathered into a 64-bit significand until the next one would not fit,
and the significand is then scaled by a power of ten in floating point. The result is exact for the
numbers that people write, and otherwise close to the nearest double.
-/

namespace Darkroom

/-- A number as written. The fraction is empty when there is no point, as a point needs a digit
behind it. -/
structure Numeral where
  negative : Bool
  whole : List Nat
  fraction : List Nat
  exponent : Option Int
  deriving DecidableEq

namespace Numeral

/-! ## Integers -/

def ofInt (n : Int) : Numeral :=
  ⟨decide (n < 0), (Decimal.spanDigits (Text.Integer.natDigits n.natAbs)).1, [], none⟩

/-- The integer that digits alone stand for. A zero with a minus sign is not an integer, since as a
double it is not the same as zero. -/
def toInt? (n : Numeral) : Option Int :=
  if n.fraction.isEmpty ∧ n.exponent.isNone then
    match n.negative, Decimal.ofDigits n.whole with
    | false, value => some value
    | true, 0 => none
    | true, value => some (-value)
  else none

/-! ## Doubles -/

def maxSignificand : Nat := 18446744073709551615

/-- Gathers digits into a significand while they fit. Returns it with the digits left over, none of
which is looked at again for its value. -/
def gather : Nat → List Nat → Nat × List Nat
  | significand, [] => (significand, [])
  | significand, d :: rest =>
    if maxSignificand < significand * 10 + d then (significand, d :: rest)
    else gather (significand * 10 + d) rest

/-- A significand divided by a power of ten, at most `10 ^ 308` in one step, since larger powers are
no doubles. Each step rounds. -/
def divided (x : Float) (places : Nat) : Float :=
  if places ≤ 308 then x / Float.ofScientific 1 false places
  else if x == 0.0 then x
  else divided (x / Float.ofScientific 1 false 308) (places - 308)
termination_by places
decreasing_by omega

/-- A significand scaled by a power of ten; nothing when the result leaves the range of doubles. A
result too close to zero is zero, and no fault. -/
def scaled? (significand : Nat) (exponent : Int) : Option Float :=
  let x := Float.ofScientific significand false 0
  if exponent < 0 then some (divided x exponent.natAbs)
  else if 308 < exponent then
    if significand = 0 then some x else none
  else
    let y := x * Float.ofScientific 1 false exponent.natAbs
    if y.isInf then none else some y

/-- The double that a number stands for. Digits that do not fit into the significand only count for
the exponent, those of the fraction not even for that. -/
def toFloat? (n : Numeral) : Option Float :=
  let (whole, extra) := gather 0 n.whole
  let (significand, unread) := gather whole n.fraction
  let places := n.fraction.length - unread.length
  let exponent := (extra.length : Int) - places + n.exponent.getD 0
  (scaled? significand exponent).map fun x => if n.negative then -x else x

/-- The layout of doubles in JSON. It differs from that of the log in the smallest number without an
exponent, in the sign of the exponent and in ties. -/
def doubleFormat : Decimal.Format where
  positionalFrom := -5
  plusExponent := true
  tie := .toEven

/-! ## Text -/

def digitChars (digits : List Nat) : List Char :=
  digits.map fun d => Char.ofNat (48 + d)

def write (n : Numeral) : List Char :=
  (if n.negative then ['-'] else [])
    ++ digitChars n.whole
    ++ (if n.fraction.isEmpty then [] else '.' :: digitChars n.fraction)
    ++ (match n.exponent with
        | none => []
        | some e => 'e' :: (if 0 ≤ e then ['+'] else []) ++ Text.Integer.write e)

/-- Reads what stands behind the whole part of a number: a fraction and an exponent, each optional
and each with at least one digit. -/
def readTail? (negative : Bool) (whole : List Nat) (text : List Char) : Option Numeral :=
  let exponent? (fraction : List Nat) (rest : List Char) : Option Numeral :=
    match rest with
    | [] => some ⟨negative, whole, fraction, none⟩
    | 'e' :: rest => (Decimal.readExponent? rest).map (⟨negative, whole, fraction, some ·⟩)
    | 'E' :: rest => (Decimal.readExponent? rest).map (⟨negative, whole, fraction, some ·⟩)
    | _ => none
  match text with
  | '.' :: rest =>
    match Decimal.spanDigits rest with
    | ([], _) => none
    | (fraction, rest) => exponent? fraction rest
  | rest => exponent? [] rest

/-- Reads a number that takes up a whole text. A whole part of several digits starts with no zero,
and there is no plus sign in front. -/
def read? (text : List Char) : Option Numeral :=
  let (negative, rest) := match text with
    | '-' :: rest => (true, rest)
    | rest => (false, rest)
  match Decimal.spanDigits rest with
  | ([], _) => none
  | (0 :: _ :: _, _) => none
  | (whole, rest) => readTail? negative whole rest

/-- A finite double as a number: the shortest digits that read back. It is read from its own text,
so that it has the form of a number as written. -/
def ofFinite (negative : Bool) (x : Decimal.Binary) : Option Numeral :=
  (read? (doubleFormat.magnitude x)).map fun n => { n with negative }

end Numeral

end Darkroom
