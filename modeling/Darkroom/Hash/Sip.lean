/-!
# SipHash-1-3

A keyed hash of bytes, here with the key zero: one round for each eight bytes, three at the end.
-/

namespace Darkroom.Hash

/-- The state of the hash: four 64-bit words. -/
structure Sip where
  v0 : UInt64
  v1 : UInt64
  v2 : UInt64
  v3 : UInt64
  deriving DecidableEq

namespace Sip

/-- The state before any input, for the key zero: the four constants alone. -/
def start : Sip :=
  ⟨0x736f6d6570736575, 0x646f72616e646f6d, 0x6c7967656e657261, 0x7465646279746573⟩

def rotl (x : UInt64) (n : UInt64) : UInt64 :=
  (x <<< n) ||| (x >>> (64 - n))

def round (s : Sip) : Sip :=
  let v0 := s.v0 + s.v1
  let v2 := s.v2 + s.v3
  let v1 := rotl s.v1 13 ^^^ v0
  let v3 := rotl s.v3 16 ^^^ v2
  let v0 := rotl v0 32
  let v2 := v2 + v1
  let v0 := v0 + v3
  let v1 := rotl v1 17 ^^^ v2
  let v3 := rotl v3 21 ^^^ v0
  ⟨v0, v1, rotl v2 32, v3⟩

/-- Takes in one word, with a single round between the two places where it enters the state. -/
def absorb (s : Sip) (word : UInt64) : Sip :=
  let s := round { s with v3 := s.v3 ^^^ word }
  { s with v0 := s.v0 ^^^ word }

/-- The hash after the last word: three rounds once the end is marked, and the four words
combined. -/
def finish (s : Sip) : UInt64 :=
  let s := round (round (round { s with v2 := s.v2 ^^^ 0xff }))
  s.v0 ^^^ s.v1 ^^^ s.v2 ^^^ s.v3

def wordOf (bytes : List UInt8) : UInt64 :=
  bytes.foldr (fun b word => (word <<< 8) ||| b.toUInt64) 0

/-- Takes in bytes, eight at a time. What is left at the end goes into a last word together with the
number of all bytes in its top byte. -/
def absorbAll (total : Nat) (s : Sip) : List UInt8 → Sip
  | a :: b :: c :: d :: e :: f :: g :: h :: rest =>
    absorbAll total (s.absorb (wordOf [a, b, c, d, e, f, g, h])) rest
  | rest => s.absorb (wordOf rest ||| (UInt64.ofNat total <<< 56))

end Sip

/-- The hash of a list of bytes. The number of bytes enters the last word, so zeros at the end make
a difference. -/
def sip (bytes : List UInt8) : UInt64 :=
  (Sip.absorbAll bytes.length Sip.start bytes).finish

end Darkroom.Hash
