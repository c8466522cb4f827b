/-!
# Binary floating point, exactly

A finite double is `m * 2 ^ q` with natural `m`. This module reads that form off the bits, names
the special values, and compares such numbers with decimals by cross multiplication, so that
nothing is rounded on the way to a text.
-/

namespace Darkroom.Decimal

/-- A finite non-negative double, `m * 2 ^ q`. This is exact, and numbers of this form are compared
with decimals by natural numbers alone. -/
structure Binary where
  m : Nat
  q : Int
  /-- The gap to the value below is half the gap to the value above. -/
  narrowBelow : Bool

/-- The magnitude that the bits of a finite double stand for. Normal numbers have one bit more than
is stored; the others have the spacing of the smallest normal ones. -/
def Binary.ofBits (b : UInt64) : Binary :=
  let e := ((b >>> 52) &&& 0x7FF).toNat
  let f := (b &&& 0xFFFFFFFFFFFFF).toNat
  if e = 0 then ⟨f, -1074, false⟩ else ⟨0x10000000000000 + f, (e : Int) - 1075, f == 0 && e > 1⟩

/-- A double as a reader of its text sees it. This is where the bits of a double are looked at, and
nothing behind it depends on them. -/
inductive FloatKind where
  | nan
  | infinite (negative : Bool)
  | finite (negative : Bool) (magnitude : Binary)

/-- The kind and value of a double. Both zeros are finite, and their sign is kept, so that it can be
written. -/
def FloatKind.ofFloat (x : Float) : FloatKind :=
  let b := x.toBits
  let negative := b >>> 63 == 1
  if x.isNaN then .nan
  else if ((b >>> 52) &&& 0x7FF) == 0x7FF then .infinite negative
  else .finite negative (.ofBits b)

/-- The whole part of a magnitude. One of the two shifts is by zero. -/
def Binary.whole (x : Binary) : Nat :=
  (x.m <<< x.q.toNat) >>> (-x.q).toNat

/-- The whole part of a double as a natural number of 64 bits; zero for a negative one and for no
number. -/
def wholePart (x : Float) : Nat :=
  match FloatKind.ofFloat x with
  | .finite false magnitude => min magnitude.whole (UInt64.size - 1)
  | .infinite false => UInt64.size - 1
  | _ => 0

/-- The decimal `digits * 10 ^ exp`. The digits may end in zeros, so a number has several such
forms. -/
structure Scaled where
  digits : Nat
  exp : Int
  deriving DecidableEq

/-- Compares `a * 10 ^ i` with `n * 2 ^ j`, exactly. Negative powers are moved to the other side, so
that both sides are natural numbers. -/
def compareScaled (a : Nat) (i : Int) (n : Nat) (j : Int) : Ordering :=
  compare ((a * Nat.pow 10 i.toNat) <<< (-j).toNat) ((n <<< j.toNat) * Nat.pow 10 (-i).toNat)

/-- Which way a number goes that lies halfway between two candidates. The writers of the log and of
JSON do not agree on this. -/
inductive Tie where
  | toEven
  | awayFromZero

/-- The quotient of two naturals, rounded to the nearest natural. Twice the remainder against the
divisor says which neighbour is nearer. -/
def roundDiv (num den : Nat) (tie : Tie) : Nat :=
  let q := num / den
  let r := num % den
  match compare (2 * r) den, tie with
  | .lt, _ => q
  | .gt, _ => q + 1
  | .eq, .awayFromZero => q + 1
  | .eq, .toEven => if q % 2 = 0 then q else q + 1

end Darkroom.Decimal
