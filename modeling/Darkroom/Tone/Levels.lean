import Darkroom.Tone.Histogram
import Darkroom.Tone.Luts

/-!
# Levels

A channel is stretched from an input range to an output range, with a power in between. Each color
goes through the levels of its own channel and then through those of the luminosity; alpha only goes
through its own.

Automatic levels choose the input range of a channel so that about 0.6% of its pixels fall outside it
at each end.
-/

namespace Darkroom

/-- The levels of one channel. The bounds are whole numbers that need not be channel values, and
either range may run backwards. -/
structure ChannelLevels (α : Type) where
  lowInput : Int64
  highInput : Int64
  gamma : α
  lowOutput : Int64
  highOutput : Int64

/-- The levels of all channels. Those of alpha are there like the others, but luminosity does not
act on alpha. -/
structure Levels (α : Type) where
  depth : Depth
  channels : PerChannel (ChannelLevels α)

variable {α : Type} [Arith α]

namespace ChannelLevels

/-- Levels that change nothing: both ranges are the whole range, and there is no power. -/
def identity (depth : Depth) : ChannelLevels α :=
  let max := Int64.ofNat depth.maxValue
  ⟨0, max, Arith.ofNat 1, 0, max⟩

def fraction (n : Int64) : α :=
  Arith.ofInt n.toInt

/-- An intensity moved to its place in the input range. An empty range has no places, so the
distance from its bound takes their part. -/
def inRange (levels : ChannelLevels α) (intensity max : α) : α :=
  let scaled := max * intensity - fraction levels.lowInput
  Arith.clamp (Arith.ofNat 0) (Arith.ofNat 1)
    (if levels.highInput = levels.lowInput then scaled
     else scaled / fraction (levels.highInput - levels.lowInput))

/-- A place in the input range with the power applied. A gamma of zero stands for no power at
all. -/
def powered (levels : ChannelLevels α) (v : α) : α :=
  if levels.gamma == Arith.ofNat 0 then v else Arith.pow v (Arith.ofNat 1 / levels.gamma)

/-- A place in the output range as a channel value. A range that runs backwards turns the channel
around. -/
def output (levels : ChannelLevels α) (v : α) : α :=
  if levels.lowOutput ≤ levels.highOutput then
    v * fraction (levels.highOutput - levels.lowOutput) + fraction levels.lowOutput
  else fraction levels.lowOutput - v * fraction (levels.lowOutput - levels.highOutput)

/-- Maps an intensity, where 1 is the largest value of a channel. The result may lie outside of the
range if the output bounds do. -/
def map (levels : ChannelLevels α) (intensity max : α) : α :=
  levels.output (levels.powered (levels.inRange intensity max)) / max

end ChannelLevels

namespace Levels

def new (depth : Depth) : Levels α :=
  ⟨depth, .ofFn fun _ => .identity depth⟩

def set (levels : Levels α) (channel : Channel) (value : ChannelLevels α) : Levels α :=
  { levels with channels := levels.channels.set channel value }

/-! ## Automatic levels -/

/-- Whether `passed` out of `count` pixels are closer to the share to be cut off than they are with
the next `more` pixels. If both are as close, the scan goes on. -/
def isCloser (α : Type) [Arith α] (count passed more : Nat) : Bool :=
  let share (n : Nat) : α := Arith.ofNat n / Arith.ofNat count
  let target : α := Arith.ofNat 6 / Arith.ofNat 1000
  Arith.less (Arith.abs (share passed - target)) (Arith.abs (share (passed + more) - target))

/-- The first of the given bins at which the pixels passed so far come closest to the share. Each
bin comes with its count and the count of the bin behind it. There may be none. -/
def cutAt (α : Type) [Arith α] (count : Nat) : Nat → List (Nat × Nat × Nat) → Option Nat
  | _, [] => none
  | passed, (bin, here, more) :: rest =>
    let passed := passed + here
    if isCloser α count passed more then some bin else cutAt α count passed rest

/-- The bin at which a scan from the dark end stops. The last bin is not among those at which it can
stop. -/
def lowCut (α : Type) [Arith α] (h : Histogram) (channel : Channel) (max count : Nat) :
    Option Nat :=
  cutAt α count 0 ((List.range max).map fun i =>
    (i, h.value channel i, h.value channel (i + 1)))

/-- The bin at which a scan from the bright end stops. It mirrors the scan from the dark end, but
bin zero is only ever the bin behind. -/
def highCut (α : Type) [Arith α] (h : Histogram) (channel : Channel) (max count : Nat) :
    Option Nat :=
  cutAt α count 0 ((List.range max).map fun k =>
    (max - k, h.value channel (max - k : Nat), h.value channel (max - k - 1 : Nat)))

/-- Stretches a channel so that about the share to be cut off lies outside at each end. A bound for
which the scan does not stop stays as it is. -/
def auto (levels : Levels α) (h : Histogram) (channel : Channel) : Levels α :=
  let max := levels.depth.maxValue
  let old := levels.channels.get channel
  let reset : ChannelLevels α :=
    { old with gamma := Arith.ofNat 1, lowOutput := 0, highOutput := Int64.ofNat max }
  let count := h.count channel 0 max
  if count = 0 then levels.set channel { reset with lowInput := 0, highInput := 0 }
  else
    let low := match lowCut α h channel max count with
      | none => old.lowInput
      | some i => Int64.ofNat (i + 1)
    let high := match highCut α h channel max count with
      | none => old.highInput
      | some i => Int64.ofNat (i - 1)
    levels.set channel { reset with lowInput := low, highInput := high }

/-! ## Tables -/

/-- Maps an intensity of a component through its levels and those of the luminosity. In between it
is not rounded to a channel value. -/
def transfer (levels : Levels α) (component : Component) (intensity : α) : α :=
  let max : α := Arith.ofNat levels.depth.maxValue
  let own := (levels.channels.get component.channel).map intensity max
  match component with
  | .alpha => own
  | _ => levels.channels.luminosity.map own max

def entry (levels : Levels α) (component : Component) (v : Nat) : Nat :=
  let max := levels.depth.maxValue
  let scale : α := Arith.ofNat max
  roundClamp (scale * levels.transfer component (Arith.ofNat v / scale)) max

/-- The tables of all components. Each of them has one, also where its levels change nothing. -/
def luts (levels : Levels α) : Luts :=
  [Component.red, .green, .blue, .alpha].foldl
    (fun luts component => luts.withTable component (levels.entry component))
    (Luts.empty levels.depth)

end Levels

end Darkroom
