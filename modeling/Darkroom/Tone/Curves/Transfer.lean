import Darkroom.Decimal.Binary
import Darkroom.Tone.Curves.Sets

/-!
# Tables of curves

An intensity, where 1 is the largest value, goes through the curve of its own channel and then through
that of the luminosity; alpha only goes through its own. Between two levels a curve is interpolated.
Intensities are single precision where they enter and leave, and so is the place between two levels.
-/

namespace Darkroom

namespace Curve

/-- Maps an intensity through one curve. Outside of the range from zero to one the ends of the curve
are taken, and what is no number stays none. -/
def map (depth : Depth) (c : Curve) (intensity : Float) : Float :=
  let level (bin : Nat) : Nat := (c.value bin).toNat
  let max := depth.maxValue
  if intensity < 0.0 then (Float32.ofNat (level 0) / Float32.ofNat max).toFloat
  else if intensity ≥ 1.0 then (Float32.ofNat (level max) / Float32.ofNat max).toFloat
  else
    let place := intensity * Float.ofNat max
    let bin := Decimal.wholePart place
    let f := (place - Float.ofNat bin).toFloat32.toFloat
    ((1.0 - f) * Float.ofNat (level bin) + f * Float.ofNat (level (bin + 1))) / Float.ofNat max

end Curve

namespace Curves

/-- Maps an intensity of a component. Between the two curves it is not rounded to single
precision. -/
def transfer (c : Curves) (component : Component) (intensity : Float32) : Float32 :=
  let own := (c.channels.get component.channel).map c.depth intensity.toFloat
  match component with
  | .alpha => own.toFloat32
  | _ => (c.channels.luminosity.map c.depth own).toFloat32

/-- The table entry of a value: the mapped value, to the nearest. It is cut off after a half is
added, which for what is not negative is the same. -/
def entry (c : Curves) (component : Component) (v : Nat) : Nat :=
  let max := c.depth.maxValue
  let mapped := c.transfer component (Float32.ofNat v / Float32.ofNat max)
  Arith.clampNat max (Arith.truncate (Float.ofNat max * mapped.toFloat + 0.5))

def luts (c : Curves) : Luts :=
  [Component.red, .green, .blue, .alpha].foldl
    (fun luts component => luts.withTable component (c.entry component))
    (Luts.empty c.depth)

end Curves

end Darkroom
