import Darkroom.Color
import Darkroom.FilterError
import Darkroom.Json.Coded

/-!
# Geometry, colors and filter errors in JSON
-/

namespace Darkroom

open Json

instance : Coded Point where
  toJson p := record [("x", toJson p.x), ("y", toJson p.y)]
  ofJson? v :=
    match fields? ["x", "y"] v with
    | some [x, y] => do
      let x ← required x
      let y ← required y
      pure ⟨x, y⟩
    | _ => none

instance : Coded Rect where
  toJson r := record
    [("x", toJson r.x), ("y", toJson r.y), ("width", toJson r.width), ("height", toJson r.height)]
  ofJson? v :=
    match fields? ["x", "y", "width", "height"] v with
    | some [x, y, width, height] => do
      let x ← required x
      let y ← required y
      let width ← required width
      let height ← required height
      pure ⟨x, y, width, height⟩
    | _ => none

instance : Coded Dimensions where
  toJson d := record [("width", toJson d.width), ("height", toJson d.height)]
  ofJson? v :=
    match fields? ["width", "height"] v with
    | some [width, height] => do
      let width ← required width
      let height ← required height
      pure ⟨width, height⟩
    | _ => none

/-- A type whose values are names. A name stands by itself, or as the only key of an object, with
null under it. -/
def namedJson {α : Type} (names : List (String × α)) (v : Json) : Option α :=
  (unitVariant? v).bind fun name => names.lookup name

instance : Coded Depth where
  toJson
    | .eight => str "Eight"
    | .sixteen => str "Sixteen"
  ofJson? := namedJson [("Eight", .eight), ("Sixteen", .sixteen)]

instance : Coded Rotation where
  toJson
    | .quarter => str "rot90"
    | .half => str "rot180"
    | .threeQuarters => str "rot270"
  ofJson? := namedJson [("rot90", .quarter), ("rot180", .half), ("rot270", .threeQuarters)]

instance : Coded Flip where
  toJson
    | .horizontal => str "horizontal"
    | .vertical => str "vertical"
  ofJson? := namedJson [("horizontal", .horizontal), ("vertical", .vertical)]

instance : Coded Channel where
  toJson c := str c.name
  ofJson? := namedJson (Channel.all.map fun c => (c.name, c))

instance : Coded Color where
  toJson c := record
    [("red", toJson c.pixel.red), ("green", toJson c.pixel.green), ("blue", toJson c.pixel.blue),
     ("alpha", toJson c.pixel.alpha), ("sixteen_bit", toJson c.depth.isSixteen)]
  ofJson? v :=
    match fields? ["red", "green", "blue", "alpha", "sixteen_bit"] v with
    | some [red, green, blue, alpha, sixteenBit] => do
      let red ← required red
      let green ← required green
      let blue ← required blue
      let alpha ← required alpha
      let sixteenBit ← required sixteenBit
      pure (.ofChannels red green blue alpha (.ofSixteen sixteenBit))
    | _ => none

instance : Coded FilterError where
  toJson
    | .geometryMismatch expected found =>
      tagged "GeometryMismatch" (record [("expected", toJson expected), ("found", toJson found)])
    | .depthMismatch expected found =>
      tagged "DepthMismatch" (record [("expected", toJson expected), ("found", toJson found)])
    | .nullImage => str "NullImage"
    | .invalidSettings reason => tagged "InvalidSettings" (toJson reason)
  ofJson? v :=
    match variant? v with
    | some ("GeometryMismatch", some v) =>
      match fields? ["expected", "found"] v with
      | some [expected, found] => do
        let expected ← required expected
        let found ← required found
        pure (.geometryMismatch expected found)
      | _ => none
    | some ("DepthMismatch", some v) =>
      match fields? ["expected", "found"] v with
      | some [expected, found] => do
        let expected ← required expected
        let found ← required found
        pure (.depthMismatch expected found)
      | _ => none
    | some ("NullImage", none) => some .nullImage
    | some ("NullImage", some .null) => some .nullImage
    | some ("InvalidSettings", some v) => (ofJson? v).map .invalidSettings
    | _ => none

end Darkroom
