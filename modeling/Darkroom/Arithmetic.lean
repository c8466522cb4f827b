/-!
# Arithmetic on fractions

Steps that weigh, scale and round are written for any arithmetic on fractions, so that one text
serves two ends: images are processed with doubles, and laws that hold of exact fractions can be
stated of the very same steps.
-/

namespace Darkroom

/-- An arithmetic on fractions, with a test for a result that is no number. The operations are those
that the library uses, with the exact behavior of doubles where it shows, such as rounding and the
bounds of integers. -/
class Arith (α : Type) extends Add α, Sub α, Mul α, Div α, BEq α where
  ofInt : Int → α
  /-- Strictly less; never true of a value that is no number. -/
  less : α → α → Bool
  isNaN : α → Bool
  /-- The part before the point, kept within 64 bits; zero for a value that is no number. -/
  truncate : α → Int
  /-- The nearest integer, a half away from zero, kept within 64 bits; zero for no number. -/
  round : α → Int
  /-- The first value to the power of the second. -/
  pow : α → α → α

namespace Arith

instance : Arith Float where
  ofInt n := Float.ofInt n
  less a b := a < b
  isNaN := Float.isNaN
  truncate x := x.toInt64.toInt
  round x := x.round.toInt64.toInt
  pow := Float.pow

def ofNat {α : Type} [Arith α] (n : Nat) : α :=
  ofInt n

def abs {α : Type} [Arith α] (x : α) : α :=
  if less x (ofInt 0) then ofInt 0 - x else x

/-- A fraction kept between two bounds. What is no number stays as it is, since both comparisons are
false of it. -/
def clamp {α : Type} [Arith α] (low high x : α) : α :=
  if less x low then low else if less high x then high else x

def clampNat (max : Nat) (n : Int) : Nat :=
  min n.toNat max

end Arith

/-- The nearest integer to `x` between zero and `max`; zero for no number. Rounding comes first, so
the bounds are those of channel values and need no rounding of their own. -/
def roundClamp {α : Type} [Arith α] (x : α) (max : Nat) : Nat :=
  Arith.clampNat max (Arith.round x)

end Darkroom
