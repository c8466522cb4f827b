import Darkroom.Tone.Luts

/-!
# Brightness, contrast and gamma

A value goes through a power, an offset and a scaling around the middle of the range, in this order.
Values between the steps are not kept within the range, but they are bounded far outside of it, so
that they stay integers of moderate size.
-/

namespace Darkroom

/-- Settings of brightness, contrast and gamma. A single color is adjusted when the channel is one;
otherwise all three are. -/
structure Contrast where
  channel : Channel
  /-- An offset, as a share of the range. -/
  brightness : Float
  /-- A factor around the middle of the range. -/
  contrast : Float
  /-- The inverse of the exponent; at least 0.01 is used. -/
  gamma : Float
deriving DecidableEq

namespace Contrast

/-- Settings that change nothing: no offset, a factor of one and an exponent of one. -/
def default : Contrast :=
  ⟨.luminosity, 0.0, 1.0, 1.0⟩

def isIdentity (c : Contrast) : Bool :=
  c.brightness == default.brightness && c.contrast == default.contrast && c.gamma == default.gamma

/-! ## The three steps -/

variable {α : Type} [Arith α]

/-- How far from zero values between the steps may lie. It is far outside of every range and far
inside of 64 bits. -/
def limit : Int := 1000000000000000

/-- The nearest integer within the limit. With it the sums of the steps stay far inside of 64 bits,
whatever the settings are. -/
def bounded (x : α) : Int :=
  max (-limit) (min limit (Arith.round x))

/-- A value with the power applied. The exponent lies between zero and a hundred, also for a gamma
that is no number. -/
def powered (gamma : α) (top v : Nat) : Int :=
  let least : α := Arith.ofNat 1 / Arith.ofNat 100
  let gamma := if Arith.less least gamma then gamma else least
  Arith.round (Arith.pow (Arith.ofNat v / Arith.ofNat top) (Arith.ofNat 1 / gamma) * Arith.ofNat top)

/-- A value moved by a share of the range. It may leave the range, since the scaling can bring it
back. -/
def offset (brightness : α) (top : Nat) (v : Int) : Int :=
  v + bounded (brightness * Arith.ofNat top)

/-- A value scaled around the middle of the range. The middle is rounded down, to 127 at 8 bits. -/
def scaled (contrast : α) (top : Nat) (v : Int) : Int :=
  let middle : Int := (top / 2 : Nat)
  bounded (Arith.ofInt (v - middle) * contrast) + middle

/-- The entry of a table behind the power. Only here is the value brought back into the range. -/
def adjusted (brightness contrast : α) (top : Nat) (v : Int) : Nat :=
  Arith.clampNat top (scaled contrast top (offset brightness top v))

/-! ## Tables -/

/-- The table entry of a value. All three steps are taken for each value by itself, on integers
between them. -/
def entry (c : Contrast) (depth : Depth) (v : Nat) : Nat :=
  let top := depth.maxValue
  adjusted c.brightness c.contrast top (powered c.gamma top v)

/-- The tables at a depth. Alpha never has one, and choosing alpha is the same as choosing all
colors. -/
def luts (c : Contrast) (depth : Depth) : Luts :=
  let empty := Luts.empty depth
  match c.channel with
  | .red => empty.withTable .red (c.entry depth)
  | .green => empty.withTable .green (c.entry depth)
  | .blue => empty.withTable .blue (c.entry depth)
  | .luminosity | .alpha => empty.withColorTables (c.entry depth)

end Contrast

end Darkroom
