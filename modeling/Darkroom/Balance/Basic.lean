import Darkroom.Balance.Daylight
import Darkroom.Image.Rows

/-!
# White balance

Each color is multiplied by its factor, and the pixel is then scaled by the value of a response curve
at its largest color, which keeps the ratios of the colors. The response curve comes from a black
point, an exposure, a power, and a darkening of the shadows.
-/

namespace Darkroom

/-- Settings of the white balance. None of them is restricted here; numbers of no use are bounded
where they are used, or lead to an image of no use. -/
structure WhiteBalance where
  /-- The black point, as a share of the range. -/
  black : Float
  /-- The exposure in stops; two numbers that are added. -/
  expositionMain : Float
  expositionFine : Float
  /-- The color temperature in kelvin. -/
  temperature : Float
  green : Float
  /-- How much the shadows are darkened. -/
  dark : Float
  gamma : Float
  /-- One keeps the ratios of the colors. -/
  saturation : Float
  /-- Multiplied values are kept in range before the response curve. -/
  clipSaturation : Bool
  /-- Pixels beyond the white point are blackened. -/
  overExposureIndicator : Bool
  /-- The factors are made smaller until no color of the image leaves the range. -/
  preventClipping : Bool
deriving DecidableEq

namespace WhiteBalance

/-- Daylight at 6500 K with nothing else changed but the shadows. So the filter with these settings
is not one that leaves an image alone. -/
def default : WhiteBalance where
  black := 0.0
  expositionMain := 0.0
  expositionFine := 0.0
  temperature := 6500.0
  green := 1.0
  dark := 0.5
  gamma := 1.0
  saturation := 1.0
  clipSaturation := true
  overExposureIndicator := false
  preventClipping := false

end WhiteBalance

namespace Balance

/-! ## The response curve -/

/-- A response curve with the black and the white point that it was built with. The points are
needed again for pixels, to tell which of them are beyond the white point. -/
structure Response where
  black : Int
  white : Int
  curve : Array Float

/-- The exponent of the response curve. The two pieces meet at 1, where the exponent is 1 as
well. -/
def exponent (gamma : Float) : Float :=
  if gamma ≥ 1.0 then 0.335 * (2.0 - gamma) + 0.665 else 1.8 * (2.0 - gamma) - 0.8

/-- The value of the response curve at a level above zero: what a pixel with this largest color is
multiplied by. -/
def responseAt (dark power : Float) (size : Nat) (black white : Int) (level : Nat) : Float :=
  let x := Float.ofInt (level - black) / Float.ofInt (white - black)
  let v := if (level : Int) < black then 0.0 else (Float.ofNat size - 1.0) * Float.pow x power
  v * (1.0 - dark * Float.exp (-x * x / 0.002)) / Float.ofNat level

/-- The response curve over `size` levels. The white point lies above the black point, so no level
is divided by zero between them. -/
def response (w : WhiteBalance) (green : Float) (size : Nat) : Response :=
  let range := Float.ofNat size
  let exposure := green * Float.pow 2.0 (w.expositionMain + w.expositionFine)
  let black := Arith.truncate (Arith.clamp 0.0 range (range * w.black))
  let white := max (black + 1) (Arith.truncate (range / exposure))
  let power := exponent w.gamma
  { black
    white
    curve := Array.ofFn fun level : Fin size =>
      if level.val = 0 then 0.0 else responseAt w.dark power size black white level.val }

/-! ## Clipping -/

/-- The largest value of a color of an image. It is zero if the image has no pixels, and then there
is nothing that could be clipped. -/
def peak (image : Image) (color : Pixel → UInt16) : Nat :=
  (List.range image.pixelCount).foldl (fun top i =>
    max top (color (Pixel.read image.depth image.bytes (i * image.depth.pixelBytes))).toNat) 0

/-- The factors made smaller, all alike, until the largest value of each color stays in range. The
color of the light is that of the given factors. -/
def withoutClipping (image : Image) (m : Multipliers) : Multipliers :=
  let top := Float.ofNat image.depth.maxValue
  let lower (factor : Float) (color : Pixel → UInt16) (multiplier : Float) : Float :=
    let p := peak image color
    if p = 0 then factor else lesser factor (top / (Float.ofNat p * multiplier))
  m.scale (lower (lower (lower 1.0 Pixel.red m.red) Pixel.green m.green) Pixel.blue m.blue)

/-! ## Pixels -/

/-- A color of a pixel whose largest color is `brightest`, both already multiplied. The distance
between the two is scaled by the saturation, and then the response at the largest color is
applied. -/
def balancedColor (w : WhiteBalance) (r : Response) (brightest color : Int) : UInt16 :=
  let size : Int := r.curve.size
  let kept := if w.clipSaturation ∧ size < color then size else color
  let kept :=
    if w.overExposureIndicator ∧ r.black < brightest ∧ r.white < brightest then 0 else kept
  let level := Arith.clampNat (r.curve.size - 1) brightest
  let v := Float.ofInt brightest
  let value := (v - w.saturation * (v - Float.ofInt kept)) * r.curve.getD level 0.0
  UInt16.ofNat (Arith.clampNat (r.curve.size - 1) (Arith.truncate value))

/-- A pixel with its colors balanced; alpha stays. The largest color decides about the response, so
all three colors are multiplied before any is finished. -/
def balancedPixel (w : WhiteBalance) (m : Multipliers) (r : Response) (p : Pixel) : Pixel :=
  let times (color : UInt16) (factor : Float) : Int :=
    Arith.truncate (Float.ofNat color.toNat * factor)
  let red := times p.red m.red
  let green := times p.green m.green
  let blue := times p.blue m.blue
  let brightest := max (max red green) blue
  let brightest :=
    if w.clipSaturation then min brightest (r.curve.size - 1 : Nat) else brightest
  { p with
    red := balancedColor w r brightest red
    green := balancedColor w r brightest green
    blue := balancedColor w r brightest blue }

end Balance

namespace WhiteBalance

/-- Balances the colors of an image. The response curve is built before the factors are made
smaller, so the exposure does not depend on the image. -/
def apply (w : WhiteBalance) (image : Image) (progress : Progress) : Image × Progress :=
  let m := Balance.multipliers w.temperature w.green
  let r := Balance.response w (if w.clipSaturation then 1.0 else m.green) image.depth.segments
  let m := if w.preventClipping then Balance.withoutClipping image m else m
  image.processRows progress ⟨0, 100⟩ (Image.pixelOp image.depth (Balance.balancedPixel w m r))

end WhiteBalance

end Darkroom
