import Darkroom.Archive.Action
import Darkroom.Proofs.Action.Equality
import Darkroom.Proofs.Json.Coded

/-!
# Actions read back from JSON

An action is read back from its JSON form if all its doubles are finite, and it is then the same
action, except that each double has become what a reader makes of its digits (`ofJson?_action`).
With any other double there is nothing to read.
-/

namespace Darkroom

open Json

/-! ## Geometry -/

instance : LawfulCoded Point where
  printable p := printable_record (by simp [printable])
  ofJson?_toJson p := by
    have hfields : fields? ["x", "y"] (record [("x", toJson p.x), ("y", toJson p.y)])
        = some [some (toJson p.x), some (toJson p.y)] := fields?_record (by simp)
    unfold ofJson? instCodedPoint
    dsimp only
    rw [hfields]
    dsimp only
    rw [required_toJson, required_toJson]
    rfl

instance : LawfulCoded Rect where
  printable r := printable_record (by simp [printable])
  ofJson?_toJson r := by
    have hfields : fields? ["x", "y", "width", "height"] (record
        [("x", toJson r.x), ("y", toJson r.y), ("width", toJson r.width),
          ("height", toJson r.height)])
        = some [some (toJson r.x), some (toJson r.y), some (toJson r.width),
          some (toJson r.height)] := fields?_record (by simp)
    unfold ofJson? instCodedRect
    dsimp only
    rw [hfields]
    dsimp only
    rw [required_toJson, required_toJson, required_toJson, required_toJson]
    rfl

instance : LawfulCoded Category where
  printable c := by cases c <;> exact .text _
  ofJson?_toJson c := by cases c <;> rfl

/-! ## Values -/

namespace ParamValue

def isFinite : ParamValue → Bool
  | double x => x.isFinite
  | _ => true

/-- A value with a function applied to a double. If the function says what becomes of a double that
is written and read, this is what becomes of the value, as no other part of it changes. -/
def mapDouble (f : Float → Float) : ParamValue → ParamValue
  | double x => double (f x)
  | v => v

theorem mapDouble_of_fixed {f : Float → Float} {v : ParamValue} (h : ∀ x ∈ v.double?, f x = x) :
    v.mapDouble f = v := by
  cases v with
  | double x => rw [mapDouble, h x rfl]
  | _ => rfl

end ParamValue

theorem printable_tagged {name : String} {v : Json} (h : v.Printable) : (tagged name v).Printable :=
  printable_record (by simpa using h)

theorem printable_paramValue (v : ParamValue) : (toJson v).Printable := by
  cases v with
  | double x => exact printable_tagged (printable_double x)
  | int v => exact printable_tagged (printable v)
  | bool v => exact printable_tagged (printable v)
  | string v => exact printable_tagged (printable v)
  | blob v => exact printable_tagged (printable v)
  | points v => exact printable_tagged (printable v)
  | rects v => exact printable_tagged (printable v)

theorem ofJson?_paramValue (v : ParamValue) :
    ofJson? (toJson v) = if v.isFinite then some (v.mapDouble readBack) else none := by
  cases v with
  | double x =>
    have hread := ofJson?_double x
    show (ofJson? (double x) : Option Float).map ParamValue.double = _
    rw [hread, ParamValue.isFinite]
    split <;> rfl
  | int v => exact congrArg (Option.map ParamValue.int) (ofJson?_toJson v)
  | bool v => exact congrArg (Option.map ParamValue.bool) (ofJson?_toJson v)
  | string v => exact congrArg (Option.map ParamValue.string) (ofJson?_toJson v)
  | blob v => exact congrArg (Option.map ParamValue.blob) (ofJson?_toJson v)
  | points v => exact congrArg (Option.map ParamValue.points) (ofJson?_toJson v)
  | rects v => exact congrArg (Option.map ParamValue.rects) (ofJson?_toJson v)

/-! ## Parameters -/

namespace Parameter

def mapDouble (f : Float → Float) (p : Parameter) : Parameter :=
  { p with value := p.value.mapDouble f }

end Parameter

theorem printable_parameter (p : Parameter) : (toJson p).Printable :=
  printable_record (by simp [printable, printable_paramValue])

theorem ofJson?_parameter (p : Parameter) :
    ofJson? (toJson p) = if p.value.isFinite then some (p.mapDouble readBack) else none := by
  have hfields : fields? ["name", "value"]
      (record [("name", toJson p.name), ("value", toJson p.value)])
      = some [some (toJson p.name), some (toJson p.value)] := fields?_record (by simp)
  have hvalue : required (some (toJson p.value)) = _ := ofJson?_paramValue p.value
  unfold ofJson? instCodedParameter
  dsimp only
  rw [hfields]
  dsimp only
  rw [required_toJson, hvalue]
  split <;> rfl

/-! ## Actions -/

namespace Action

def isFinite (a : Action) : Bool :=
  a.parameters.all fun p => p.value.isFinite

def mapDouble (f : Float → Float) (a : Action) : Action :=
  { a with parameters := a.parameters.map (Parameter.mapDouble f) }

theorem mapDouble_of_fixed {f : Float → Float} {a : Action}
    (h : ∀ p ∈ a.parameters, ∀ x ∈ p.value.double?, f x = x) : a.mapDouble f = a := by
  have hparameters : a.parameters.map (Parameter.mapDouble f) = a.parameters := by
    refine (List.map_congr_left fun p hp => ?_).trans (List.map_id _)
    rw [Parameter.mapDouble, ParamValue.mapDouble_of_fixed (h p hp), id]
  rw [mapDouble, hparameters]

end Action

theorem printable_action (a : Action) : (toJson a).Printable := by
  have hparameters : (toJson a.parameters).Printable :=
    printable_list fun p _ => printable_parameter p
  obtain ⟨identifier, version, category, displayName, parameters⟩ := a
  cases displayName with
  | none => exact printable_record (by simp [printable, hparameters])
  | some name => exact printable_record (by simp [printable, hparameters])

theorem fields?_action (a : Action) :
    fields? ["identifier", "version", "category", "display_name", "parameters"] (toJson a)
      = some [some (toJson a.identifier), some (toJson a.version), some (toJson a.category),
          a.displayName.map toJson, some (toJson a.parameters)] := by
  obtain ⟨identifier, version, category, displayName, parameters⟩ := a
  cases displayName with
  | none => exact fields?_record (by simp)
  | some name => exact fields?_record (by simp)

/-- An action with finite doubles is read back; any other double is refused. -/
theorem ofJson?_action (a : Action) :
    ofJson? (toJson a) = if a.isFinite then some (a.mapDouble readBack) else none := by
  have hname : nullable (a.displayName.map toJson) = some a.displayName :=
    nullable_toJson (fun _ => Json.noConfusion) a.displayName
  have hparameters : orElse [] (some (toJson a.parameters))
      = if a.isFinite then some (a.parameters.map (Parameter.mapDouble readBack)) else none :=
    readAll_map ofJson?_parameter a.parameters
  have hfields := fields?_action a
  generalize toJson a = v at hfields ⊢
  unfold ofJson? instCodedAction
  dsimp only
  rw [hfields]
  dsimp only
  rw [required_toJson, required_toJson, orElse_toJson, hname, hparameters]
  split <;> rfl

end Darkroom
