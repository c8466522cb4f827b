/-!
# Octets in hexadecimal

Digits of an octet in either case, and the reading of a pair of characters as an octet.
-/

namespace Darkroom.Text.Hex

def lowerDigit (n : Nat) : Char :=
  Char.ofNat (if n < 10 then 0x30 + n else 0x57 + n)

def upperDigit (n : Nat) : Char :=
  Char.ofNat (if n < 10 then 0x30 + n else 0x37 + n)

/-- The two lower-case digits of an octet, the high one first. Blobs are written with these, escapes
with the upper-case ones. -/
def lowerPair (b : UInt8) : List Char :=
  [lowerDigit (b.toNat / 16), lowerDigit (b.toNat % 16)]

def upperPair (b : UInt8) : List Char :=
  [upperDigit (b.toNat / 16), upperDigit (b.toNat % 16)]

def lower (bytes : List UInt8) : List Char :=
  bytes.flatMap lowerPair

/-- The value of a hexadecimal digit of either case. What is written has one case only, but both are
read. -/
def digit? (c : Char) : Option Nat :=
  let n := c.toNat
  if 0x30 ≤ n ∧ n ≤ 0x39 then some (n - 0x30)
  else if 0x61 ≤ n ∧ n ≤ 0x66 then some (n - 0x57)
  else if 0x41 ≤ n ∧ n ≤ 0x46 then some (n - 0x37)
  else none

/-- Two characters read as a number in base sixteen: two digits, or a plus sign and one digit. The
sign is never written; it is accepted because numbers in general may have one. -/
def pair? (c d : Char) : Option UInt8 :=
  match digit? d with
  | none => none
  | some low =>
    if c = '+' then some (UInt8.ofNat low)
    else (digit? c).map fun high => UInt8.ofNat (16 * high + low)

/-- The octets of pairs of digits. A pair that is none counts as zero, and a single digit at the end
is dropped. -/
def bytes : List Char → List UInt8
  | c :: d :: rest => (pair? c d).getD 0 :: bytes rest
  | _ => []

/-- The sixteen lower-case digits of a 64-bit word, most significant first. Zeros in front are kept,
so that all fingerprints have the same length. -/
def word (w : UInt64) : List Char :=
  (List.range 16).map fun i => lowerDigit ((w >>> UInt64.ofNat (4 * (15 - i))).toNat % 16)

end Darkroom.Text.Hex
