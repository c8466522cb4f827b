import Darkroom.Action.Basic
import Darkroom.Archive.Geometry

/-!
# Actions in JSON

An action keeps its parameters as a list, so their order is kept, and so is a key that a list written
by someone else repeats. The category and the parameters may be left out; a display name is only
written when there is one.
-/

namespace Darkroom

open Json

instance : Coded Category where
  toJson
    | .reproducible => str "Reproducible"
    | .complex => str "Complex"
    | .documented => str "Documented"
  ofJson? := namedJson
    [("Reproducible", .reproducible), ("Complex", .complex), ("Documented", .documented)]

instance : Coded ParamValue where
  toJson
    | .int v => tagged "Int" (toJson v)
    | .double v => tagged "Double" (toJson v)
    | .bool v => tagged "Bool" (toJson v)
    | .string v => tagged "String" (toJson v)
    | .blob v => tagged "Blob" (toJson v)
    | .points v => tagged "Points" (toJson v)
    | .rects v => tagged "Rects" (toJson v)
  ofJson? v :=
    match variant? v with
    | some ("Int", some v) => (ofJson? v).map .int
    | some ("Double", some v) => (ofJson? v).map .double
    | some ("Bool", some v) => (ofJson? v).map .bool
    | some ("String", some v) => (ofJson? v).map .string
    | some ("Blob", some v) => (ofJson? v).map .blob
    | some ("Points", some v) => (ofJson? v).map .points
    | some ("Rects", some v) => (ofJson? v).map .rects
    | _ => none

instance : Coded Parameter where
  toJson p := record [("name", toJson p.name), ("value", toJson p.value)]
  ofJson? v :=
    match fields? ["name", "value"] v with
    | some [name, value] => do
      let name ← required name
      let value ← required value
      pure ⟨name, value⟩
    | _ => none

instance : Coded Action where
  toJson a := record
    ([("identifier", toJson a.identifier), ("version", toJson a.version),
      ("category", toJson a.category)]
      ++ (match a.displayName with
          | none => []
          | some name => [("display_name", toJson name)])
      ++ [("parameters", toJson a.parameters)])
  ofJson? v :=
    match fields? ["identifier", "version", "category", "display_name", "parameters"] v with
    | some [identifier, version, category, displayName, parameters] => do
      let identifier ← required identifier
      let version ← required version
      let category ← orElse Category.reproducible category
      let displayName ← nullable displayName
      let parameters ← orElse [] parameters
      pure ⟨identifier, version, category, displayName, parameters⟩
    | _ => none

end Darkroom
