import Darkroom.Arithmetic

/-!
# The color of daylight

The color of daylight at a temperature is a point of the chromaticity diagram, on a curve fitted in
pieces. Its linear red, green and blue give factors that turn the light white; the smallest of
them is 1.
-/

namespace Darkroom.Balance

/-- A factor for each color. What is multiplied are channel values as they are, without making them
linear first. -/
structure Multipliers where
  red : Float
  green : Float
  blue : Float

namespace Multipliers

/-- The same factor on each, which changes the exposure but not the color of the light. -/
def scale (m : Multipliers) (factor : Float) : Multipliers :=
  ⟨m.red * factor, m.green * factor, m.blue * factor⟩

end Multipliers

/-- The smaller of two numbers. What is no number gives way to the other, so it is a result only if
both are none. -/
def lesser (a b : Float) : Float :=
  if b < a || a.isNaN then b else a

/-! ## Chromaticity -/

/-- The temperatures that the curve is fitted for, in kelvin. Other temperatures count as the nearer
end of this range. -/
def temperatureRange : Float × Float :=
  (2000.0, 12000.0)

/-- The first chromaticity coordinate of daylight, by polynomials in the reciprocal of the
temperature. There are three, which nearly meet where one gives way to the next. -/
def daylightX (t : Float) : Float :=
  let t2 := t * t
  let t3 := t * t * t
  if t ≤ 4000.0 then 0.27475e9 / t3 - 0.98598e6 / t2 + 1.17444e3 / t + 0.145986
  else if t ≤ 7000.0 then -4.6070e9 / t3 + 2.9678e6 / t2 + 0.09911e3 / t + 0.244063
  else -2.0064e9 / t3 + 1.9018e6 / t2 + 0.24748e3 / t + 0.237040

def daylightY (x : Float) : Float :=
  -3.0 * x * x + 2.87 * x - 0.275

/-! ## Factors -/

/-- One linear color of a point given by its three tristimulus values and their shares. The terms
are added one after the other, since sums of doubles depend on the order. -/
def linear (x y z shareX shareY shareZ : Float) : Float :=
  0.0 + x * shareX + y * shareY + z * shareZ

/-- The factors for light of a temperature, kept within the fitted range. A larger `green` lets more
green through. Dividing by the smallest factor means that no color is made darker. -/
def multipliers (temperature green : Float) : Multipliers :=
  let t := Arith.clamp temperatureRange.1 temperatureRange.2 temperature
  let xd := daylightX t
  let yd := daylightY xd
  let x := xd / yd
  let z := (1.0 - xd - yd) / yd
  let r := 1.0 / linear x 1.0 z 3.24071 (-1.53726) (-0.498571)
  let g := 1.0 / (linear x 1.0 z (-0.969258) 1.87599 0.0415557 / green)
  let b := 1.0 / linear x 1.0 z 0.0556352 (-0.203996) 1.05707
  let least := lesser (lesser r g) b
  ⟨r / least, g / least, b / least⟩

end Darkroom.Balance
