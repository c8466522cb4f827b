import Darkroom.Geometry

/-!
# Errors that end a filter run

Everything else, such as an empty list of spots or a flat histogram, leaves the image as it is.
-/

namespace Darkroom

inductive FilterError where
  /-- Two images that work together have different sizes. -/
  | geometryMismatch (expected found : Dimensions)
  /-- Two images that work together have different depths, given in bits. -/
  | depthMismatch (expected found : UInt32)
  /-- An image holds no pixels. -/
  | nullImage
  /-- The settings of the filter cannot be applied. -/
  | invalidSettings (reason : String)
  deriving DecidableEq

namespace FilterError

/-- The wording of an error. Sizes and depths are worded in the order in which they are stored: what
was expected, and then what was found. -/
def message : FilterError → String
  | geometryMismatch expected found =>
    let e := expected.text
    let f := found.text
    s!"image geometry mismatch: expected {e}, found {f}"
  | depthMismatch expected found =>
    let e := expected.toNat
    let f := found.toNat
    s!"bit depth mismatch: expected {e} bits, found {f} bits"
  | nullImage => "image is null"
  | invalidSettings reason => s!"invalid filter settings: {reason}"

end FilterError

end Darkroom
