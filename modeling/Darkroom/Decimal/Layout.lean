import Darkroom.Decimal.Binary
import Darkroom.Decimal.Shortest
import Darkroom.Text.Integer

/-!
# Doubles as text

A format says how the shortest digits are laid out: which magnitudes are written positionally, how
an exponent is introduced, and which way an exact tie between two shortest decimals goes. A value
without a fraction keeps a point and a zero when it is written positionally.

With a fixed number of places, the exact binary value is rounded once, and a tie goes to the even
neighbour.
-/

namespace Darkroom.Decimal

/-- The layout of doubles in one kind of output. The outputs differ in when they use an exponent and
how they write it, but all of them write the shortest digits that read back. -/
structure Format where
  /-- A leading digit at `10 ^ e` is written positionally when `positionalFrom ≤ e`. -/
  positionalFrom : Int
  /-- … and `e < positionalBelow`. -/
  positionalBelow : Int := 16
  /-- A positive exponent has a plus sign. -/
  plusExponent : Bool
  /-- Which of two equally near shortest decimals is taken. -/
  tie : Tie

namespace Format

/-- Digits at a decimal exponent, laid out with a point. There is always a digit on both sides of
it, if need be a zero. -/
def positional (digits : List Char) (exp : Int) : List Char :=
  if 0 ≤ exp then digits ++ List.replicate exp.toNat '0' ++ ['.', '0']
  else
    let places := exp.natAbs
    if places < digits.length then
      digits.take (digits.length - places) ++ '.' :: digits.drop (digits.length - places)
    else ['0', '.'] ++ List.replicate (places - digits.length) '0' ++ digits

def scientific (format : Format) (digits : List Char) (lead : Int) : List Char :=
  let mantissa := match digits with
    | d :: r :: rest => d :: '.' :: r :: rest
    | short => short
  let sign := if format.plusExponent ∧ 0 ≤ lead then ['+'] else []
  mantissa ++ 'e' :: sign ++ Text.Integer.write lead

/-- The text of a finite magnitude. The place of the leading digit decides between the two layouts;
zero is always written positionally. -/
def magnitude (format : Format) (x : Binary) : List Char :=
  let d := x.shortest format.tie
  let digits := Text.Integer.natDigits d.digits
  let lead := d.exp + digits.length - 1
  if d.digits = 0 ∨ (format.positionalFrom ≤ lead ∧ lead < format.positionalBelow) then
    positional digits d.exp
  else format.scientific digits lead

end Format

/-! ## A fixed number of decimal places -/

def placed (units places : Nat) : List Char :=
  let digits := Text.Integer.natDigits units
  let padded := List.replicate (places + 1 - digits.length) '0' ++ digits
  if places = 0 then padded
  else padded.take (padded.length - places) ++ '.' :: padded.drop (padded.length - places)

/-- `x` in units of `10 ^ -places`, to the nearest, a tie to even. It is rounded once, from the
exact value. -/
def Binary.units (x : Binary) (places : Nat) : Nat :=
  roundDiv ((x.m <<< x.q.toNat) * Nat.pow 10 places) (1 <<< (-x.q).toNat) .toEven

/-- A double with a fixed number of places. Unlike the shortest text it may not read back, since it
is for people. -/
def fixed (x : Float) (places : Nat) : List Char :=
  match FloatKind.ofFloat x with
  | .nan => "NaN".toList
  | .infinite negative => (if negative then ['-'] else []) ++ "inf".toList
  | .finite negative magnitude =>
    (if negative then ['-'] else []) ++ placed (magnitude.units places) places

end Darkroom.Decimal
