/-!
# Integers in decimal

A reader of bounded integers. It goes from left to right and stops at the first fault: a character
that is no digit, or a digit with which the value leaves its bounds. A plus sign may stand in front,
a minus sign only where negative values exist.
-/

namespace Darkroom.Text

/-- Why a text is no integer of the wanted range. Faults are cited in messages, so it matters which
one is found first. -/
inductive IntegerFault where
  | empty
  | invalidDigit
  | tooLarge
  | tooSmall
  deriving DecidableEq

namespace IntegerFault

def message : IntegerFault → String
  | empty => "cannot parse integer from empty string"
  | invalidDigit => "invalid digit found in string"
  | tooLarge => "number too large to fit in target type"
  | tooSmall => "number too small to fit in target type"

end IntegerFault

namespace Integer

def digit? (c : Char) : Option Nat :=
  if '0' ≤ c ∧ c ≤ '9' then some (c.toNat - 48) else none

/-- Appends digits to a value that may not exceed `bound`. A digit that leads beyond the bound is
reported before any later character is looked at. -/
def readDigits (overflow : IntegerFault) (bound : Nat) :
    Nat → List Char → Except IntegerFault Nat
  | value, [] => .ok value
  | value, c :: rest =>
    match digit? c with
    | none => .error .invalidDigit
    | some d =>
      if bound < value * 10 + d then .error overflow
      else readDigits overflow bound (value * 10 + d) rest

def readPositive (high : Int) (digits : List Char) : Except IntegerFault Int :=
  (readDigits .tooLarge high.toNat 0 digits).map Int.ofNat

/-- Digits behind a minus sign, of a number from `low` to zero. The bound is that of the digits
without their sign. -/
def readNegative (low : Int) (digits : List Char) : Except IntegerFault Int :=
  (readDigits .tooSmall (-low).toNat 0 digits).map fun n => -(n : Int)

/-- Reads a number from `low` to `high`, where `low` is zero or negative. A sign needs digits
behind it, and a minus sign is no digit where no negative number is in range. -/
def read (low high : Int) : List Char → Except IntegerFault Int
  | [] => .error .empty
  | '+' :: [] => .error .invalidDigit
  | '-' :: [] => .error .invalidDigit
  | '+' :: digits => readPositive high digits
  | '-' :: digits => if low < 0 then readNegative low digits else .error .invalidDigit
  | digits => readPositive high digits

/-- Reads a signed 32-bit number, as versions and coordinates are. -/
def readInt32 (text : List Char) : Except IntegerFault Int32 :=
  (read (-2147483648) 2147483647 text).map Int32.ofInt

def readInt64 (text : List Char) : Except IntegerFault Int64 :=
  (read (-9223372036854775808) 9223372036854775807 text).map Int64.ofInt

def natDigits (n : Nat) : List Char :=
  Nat.toDigits 10 n

/-- A number in decimal, with a minus sign if it is negative, without a plus sign or zeros in
front. -/
def write (n : Int) : List Char :=
  if n < 0 then '-' :: natDigits n.natAbs else natDigits n.natAbs

end Integer

end Darkroom.Text
