/-!
# Channel values and colors

Channels have 8 or 16 bits. A value goes up by the factor 257, which maps the ends of the ranges onto
each other, and comes down by the rounded quotient.
-/

namespace Darkroom

/-- The number of bits of a channel. All channels of an image have the same depth, so it is kept
once and not for each. -/
inductive Depth where
  | eight
  | sixteen
  deriving DecidableEq, Inhabited

namespace Depth

def isSixteen : Depth → Bool
  | eight => false
  | sixteen => true

def ofSixteen (sixteenBit : Bool) : Depth :=
  if sixteenBit then sixteen else eight

def bits : Depth → Nat
  | eight => 8
  | sixteen => 16

def maxValue : Depth → Nat
  | eight => 255
  | sixteen => 65535

/-- The number of values of a channel, which is the length of a table or of a histogram. -/
def segments (d : Depth) : Nat :=
  d.maxValue + 1

def pixelBytes : Depth → Nat
  | eight => 4
  | sixteen => 8

end Depth

/-- A selection of channels, as histograms, levels and curves use it. `luminosity` is all colors
together, or the largest of them. -/
inductive Channel where
  | luminosity
  | red
  | green
  | blue
  | alpha
  deriving DecidableEq, Inhabited

namespace Channel

def all : List Channel :=
  [luminosity, red, green, blue, alpha]

/-- The number of a channel in an action. Numbers are stored, so they must not change when channels
are added. -/
def index : Channel → Nat
  | luminosity => 0
  | red => 1
  | green => 2
  | blue => 3
  | alpha => 4

def ofIndex? (n : Int) : Option Channel :=
  all.find? fun c => (c.index : Int) == n

def name : Channel → String
  | luminosity => "luminosity"
  | red => "red"
  | green => "green"
  | blue => "blue"
  | alpha => "alpha"

end Channel

/-- An 8-bit value at 16 bits. The product with 257 repeats the byte, so the largest value becomes
the largest one. -/
def upscale (v : UInt16) : UInt16 :=
  v * 257

/-- A 16-bit value at 8 bits, to the nearest. It takes back what `upscale` does, and neighbouring
values come out at most one apart. -/
def downscale (v : UInt16) : UInt16 :=
  UInt16.ofNat ((v.toNat + 128) / 257)

/-- The channels of a pixel, in the order in which they are stored. At 8 bits the values use the low
byte only. -/
structure Pixel where
  blue : UInt16
  green : UInt16
  red : UInt16
  alpha : UInt16
  deriving DecidableEq, Inhabited

namespace Pixel

def map (f : UInt16 → UInt16) (p : Pixel) : Pixel :=
  ⟨f p.blue, f p.green, f p.red, f p.alpha⟩

/-- The channel stored at a position from 0 to 3. A later position counts as the last one, so that
this is total. -/
def channel (p : Pixel) : Nat → UInt16
  | 0 => p.blue
  | 1 => p.green
  | 2 => p.red
  | _ => p.alpha

/-- The byte at an offset inside a stored pixel. At 8 bits only the low byte of a channel is kept;
at 16 bits the low byte comes first. -/
def byte (depth : Depth) (p : Pixel) (offset : Nat) : UInt8 :=
  match depth with
  | .eight => (p.channel offset).toUInt8
  | .sixteen =>
    let v := p.channel (offset / 2)
    if offset % 2 = 0 then v.toUInt8 else (v >>> 8).toUInt8

def bytes (depth : Depth) (p : Pixel) : List UInt8 :=
  (List.range depth.pixelBytes).map (p.byte depth)

/-- Two bytes as a channel value, the low one first, which is the order in which images store 16-bit
values. -/
def word (low high : UInt8) : UInt16 :=
  low.toUInt16 ||| (high.toUInt16 <<< 8)

/-- The pixel stored at a position of `data`. Bytes behind the end count as zero, so that reading is
total; no well-formed image is read there. -/
def read (depth : Depth) (data : Array UInt8) (start : Nat) : Pixel :=
  let byteAt (i : Nat) : UInt8 := data.getD (start + i) 0
  match depth with
  | .eight => ⟨(byteAt 0).toUInt16, (byteAt 1).toUInt16, (byteAt 2).toUInt16, (byteAt 3).toUInt16⟩
  | .sixteen =>
    { blue := word (byteAt 0) (byteAt 1)
      green := word (byteAt 2) (byteAt 3)
      red := word (byteAt 4) (byteAt 5)
      alpha := word (byteAt 6) (byteAt 7) }

/-- One channel of a pixel laid over another: the share `alpha / max` of `upper`, the rest of
`lower`, to the nearest. -/
def mix (max alpha : Nat) (upper lower : UInt16) : UInt16 :=
  UInt16.ofNat ((upper.toNat * alpha + lower.toNat * (max - min alpha max) + max / 2) / max)

/-- A pixel laid over another one, by the alpha of the upper. Every quotient is rounded to the
nearest by adding half of the divisor, that of alpha too. -/
def layered (max : Nat) (upper lower : Pixel) : Pixel :=
  let alpha := upper.alpha.toNat
  let rest := max - min alpha max
  { blue := mix max alpha upper.blue lower.blue
    green := mix max alpha upper.green lower.green
    red := mix max alpha upper.red lower.red
    alpha := UInt16.ofNat (min (alpha + (lower.alpha.toNat * rest + max / 2) / max) max) }

end Pixel

/-- A color: channel values and the depth they are meant at. Colors of different depths are never
equal, also if they look the same. -/
structure Color where
  pixel : Pixel
  depth : Depth
  deriving DecidableEq, Inhabited

namespace Color

def ofChannels (red green blue alpha : UInt16) (depth : Depth) : Color :=
  ⟨⟨blue, green, red, alpha⟩, depth⟩

def opaqueOf (red green blue : UInt16) (depth : Depth) : Color :=
  ofChannels red green blue (UInt16.ofNat depth.maxValue) depth

/-- The same color at another depth. A color that goes up and comes down again is the same as
before; one that comes down first is rounded. -/
def toDepth (c : Color) (depth : Depth) : Color :=
  match c.depth, depth with
  | .eight, .sixteen => ⟨c.pixel.map upscale, .sixteen⟩
  | .sixteen, .eight => ⟨c.pixel.map downscale, .eight⟩
  | _, _ => c

end Color

end Darkroom
