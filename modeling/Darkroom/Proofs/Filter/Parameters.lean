import Darkroom.Filter.Apply
import Darkroom.Filter.Registry
import Darkroom.Proofs.Action.Records

/-!
# Settings come back from an action

No kind of filter sets a key twice (`distinctNames_action`), so a key holds what was set under it
(`Action.get_of_mem`). For each kind the settings that an action holds are then the ones it was made
from, and the registry of all kinds makes the filter again (`Registry.create?_action`).

Only curves leave parameters out: the list of a channel is not set when it is empty, and the default
of a list is the empty one.
-/

namespace Darkroom

open OfParam (ofParam?)
open ToParam (toParam)

namespace Action

/-! ## Looking up -/

/-- A key holds what was set under it. -/
theorem get_of_mem {α : Type} [OfParam α] [ToParam α] {a : Action} {key : String} {v : α}
    (ha : a.DistinctNames) (hmem : ⟨key, toParam v⟩ ∈ a.parameters)
    (hv : ofParam? (toParam v) = some v) (default : α) : a.get key default = v := by
  rw [get, value?, find?_of_mem ha hmem, Option.map_some, Option.bind_some, hv, Option.getD_some]

/-- A key that is not set gives the default. -/
theorem get_of_notMem {α : Type} [OfParam α] {a : Action} {key : String}
    (hmem : key ∉ a.parameters.map (·.name)) (default : α) : a.get key default = default := by
  have hnone : a.parameters.find? (·.name = key) = none := by
    refine List.find?_eq_none.mpr fun p hp hkey => hmem ?_
    exact (of_decide_eq_true hkey) ▸ List.mem_map_of_mem hp
  rw [get, value?, hnone, Option.map_none, Option.bind_none, Option.getD_none]

end Action

/-! ## Brightness, contrast and gamma -/

theorem Channel.ofIndex?_index (channel : Channel) :
    ofIndex? (Int64.ofNat channel.index).toInt = some channel := by
  cases channel <;> decide

theorem Contrast.ofAction_of_parameters {a : Action} {c : Contrast} (ha : a.DistinctNames)
    (h : a.parameters = c.parameters) : ofAction a = c := by
  have hchannel : a.get "channel" (0 : Int64) = Int64.ofNat c.channel.index :=
    Action.get_of_mem ha (by simp [h, parameters]) rfl _
  rw [ofAction, hchannel, Channel.ofIndex?_index]
  obtain ⟨channel, brightness, contrast, gamma⟩ := c
  congr 1 <;> exact Action.get_of_mem ha (by simp [h, parameters]) rfl _

/-! ## White balance -/

theorem WhiteBalance.ofAction_of_parameters {a : Action} {w : WhiteBalance} (ha : a.DistinctNames)
    (h : a.parameters = w.parameters) : ofAction a = w := by
  rw [ofAction]
  obtain ⟨_, _, _, _, _, _, _, _, _, _, _⟩ := w
  congr 1 <;> exact Action.get_of_mem ha (by simp [h, parameters]) rfl _

/-! ## Curves -/

theorem CurveKind.ofCode_code (kind : CurveKind) : ofCode kind.code = kind := by
  cases kind <;> decide

theorem Depth.ofSixteen_bits (depth : Depth) : ofSixteen (Int64.ofNat depth.bits == 16) = depth := by
  cases depth <;> decide

namespace Curves.Settings

theorem key_injective {c d : Channel} (h : key c = key d) : c = d := by
  cases c <;> cases d <;> first | rfl | exact absurd h (by decide)

def listed (s : Settings) (channels : List Channel) : List Parameter :=
  channels.filterMap fun channel =>
    if (s.lists.get channel).isEmpty then none else some ⟨key channel, toParam (s.lists.get channel)⟩

theorem listed_eq (s : Settings) : ∀ channels : List Channel,
    s.listed channels = (channels.filter fun c => !(s.lists.get c).isEmpty).map fun c =>
      ⟨key c, toParam (s.lists.get c)⟩
  | [] => rfl
  | c :: channels => by
      rw [listed, List.filterMap_cons, ← listed, listed_eq s channels]
      cases hempty : (s.lists.get c).isEmpty with
      | true => simp [hempty]
      | false => simp [hempty]

theorem parameters_eq (s : Settings) : s.parameters
    = ⟨"curveBitDepth", toParam (Int64.ofNat s.depth.bits)⟩ :: ⟨"curveType", toParam s.kind.code⟩
      :: s.listed Channel.all :=
  (rfl)

theorem names_eq (s : Settings) : s.parameters.map (·.name)
    = "curveBitDepth" :: "curveType"
      :: (Channel.all.filter fun c => !(s.lists.get c).isEmpty).map key := by
  rw [parameters_eq, List.map_cons, List.map_cons, listed_eq, List.map_map]
  rfl

theorem names_nodup (s : Settings) : (s.parameters.map (·.name)).Nodup := by
  have hall : ("curveBitDepth" :: "curveType" :: Channel.all.map key).Nodup := by decide
  rw [names_eq]
  exact hall.sublist (((List.filter_sublist.map key).cons_cons _).cons_cons _)

theorem mem_parameters {s : Settings} {channel : Channel}
    (h : (s.lists.get channel).isEmpty = false) :
    ⟨key channel, toParam (s.lists.get channel)⟩ ∈ s.parameters := by
  rw [parameters_eq, listed_eq]
  refine List.mem_cons_of_mem _ (List.mem_cons_of_mem _ (List.mem_map.mpr ⟨channel, ?_, rfl⟩))
  exact List.mem_filter.mpr ⟨by cases channel <;> decide, by rw [h]; rfl⟩

theorem notMem_names {s : Settings} {channel : Channel}
    (h : (s.lists.get channel).isEmpty) : key channel ∉ s.parameters.map (·.name) := by
  rw [names_eq]
  intro hmem
  rcases List.mem_cons.mp hmem with hdepth | hmem
  · exact absurd hdepth (by cases channel <;> decide)
  rcases List.mem_cons.mp hmem with hkind | hmem
  · exact absurd hkind (by cases channel <;> decide)
  obtain ⟨other, hother, hkey⟩ := List.mem_map.mp hmem
  rw [List.mem_filter, key_injective hkey, h] at hother
  exact absurd hother.2 Bool.false_ne_true

/-- The list of a channel, set or not. -/
theorem get_key {a : Action} {s : Settings} (ha : a.DistinctNames)
    (h : a.parameters = s.parameters) (channel : Channel) :
    a.get (key channel) [] = s.lists.get channel := by
  cases hempty : (s.lists.get channel).isEmpty with
  | true =>
      rw [List.isEmpty_iff.mp hempty]
      exact Action.get_of_notMem (h ▸ notMem_names hempty) []
  | false => exact Action.get_of_mem ha (h ▸ mem_parameters hempty) rfl []

theorem ofAction_of_parameters {a : Action} {s : Settings} (ha : a.DistinctNames)
    (h : a.parameters = s.parameters) : ofAction a = s := by
  have hkind : a.get "curveType" 0 = s.kind.code :=
    Action.get_of_mem ha (by simp [h, parameters_eq]) rfl 0
  have hdepth : a.get "curveBitDepth" (8 : Int64) = Int64.ofNat s.depth.bits :=
    Action.get_of_mem ha (by simp [h, parameters_eq]) rfl 8
  rw [ofAction, hkind, hdepth, CurveKind.ofCode_code, Depth.ofSixteen_bits]
  simp only [get_key ha h]
  rfl

end Curves.Settings

/-! ## Spot repair -/

theorem Interpolation.ofCode_code (interpolation : Interpolation) :
    ofCode interpolation.code = interpolation := by
  cases interpolation <;> decide

theorem Direction.ofCode_code (direction : Direction) : ofCode direction.code = direction := by
  cases direction <;> decide

theorem SpotRepair.ofAction_of_parameters {a : Action} {r : SpotRepair} (ha : a.DistinctNames)
    (h : a.parameters = r.parameters) : ofAction a = r := by
  have hinterpolation : a.get "interpolationMethod" 0 = r.interpolation.code :=
    Action.get_of_mem ha (by simp [h, parameters]) rfl 0
  have hdirection : a.get "direction" 0 = r.direction.code :=
    Action.get_of_mem ha (by simp [h, parameters]) rfl 0
  have hspots : a.get "hotPixels" [] = r.spots :=
    Action.get_of_mem ha (by simp [h, parameters]) rfl []
  rw [ofAction, hinterpolation, hdirection, hspots, Interpolation.ofCode_code,
    Direction.ofCode_code]

/-! ## All kinds -/

theorem FilterSettings.names_nodup (settings : FilterSettings) :
    (settings.parameters.map (·.name)).Nodup := by
  cases settings with
  | contrast c =>
      show ["channel", "brightness", "contrast", "gamma"].Nodup
      decide
  | whiteBalance w =>
      show ["black", "expositionMain", "expositionFine", "temperature", "green", "dark", "gamma",
        "saturation", "clipSaturation", "overExposureIndicator", "preventClipping"].Nodup
      decide
  | curves s => exact s.names_nodup
  | spotRepair r =>
      show ["interpolationMethod", "direction", "hotPixels"].Nodup
      decide
  | autoExposure | autoLevels | equalize | normalize => exact List.nodup_nil

/-- The action of a filter sets no key twice. -/
theorem Filter.distinctNames_action (f : Filter) : f.action.DistinctNames :=
  f.settings.names_nodup

/-- Settings are read back from an action with their parameters. -/
theorem FilterSettings.ofAction_of_parameters {a : Action} {settings : FilterSettings}
    (h : a.parameters = settings.parameters) : ofAction settings.kind a = settings := by
  have ha : a.DistinctNames := by
    rw [Action.DistinctNames, h]
    exact settings.names_nodup
  cases settings with
  | contrast c => exact congrArg contrast (Contrast.ofAction_of_parameters ha h)
  | whiteBalance w => exact congrArg whiteBalance (WhiteBalance.ofAction_of_parameters ha h)
  | curves s => exact congrArg curves (Curves.Settings.ofAction_of_parameters ha h)
  | spotRepair r => exact congrArg spotRepair (SpotRepair.ofAction_of_parameters ha h)
  | autoExposure | autoLevels | equalize | normalize => rfl

namespace Registry

/-- Every kind is known in the version that actions are made in. -/
theorem entry?_builtin (kind : FilterKind) :
    builtin.entry? kind.identifier FilterKind.version = some kind := by
  cases kind <;> decide

theorem isSupported_action (f : Filter) :
    builtin.isSupported f.action.identifier f.action.version := by
  show (builtin.entry? f.kind.identifier FilterKind.version).isSome
  rw [entry?_builtin]
  rfl

/-- The action of a filter makes the filter again, as it was before it ran. -/
theorem create?_action (f : Filter) : builtin.create? f.action = some (.new f.settings) := by
  have hentry : builtin.entry? f.action.identifier f.action.version = some f.kind :=
    entry?_builtin f.kind
  rw [create?, hentry, Option.map_some]
  exact congrArg (fun settings => some (Filter.new settings))
    (FilterSettings.ofAction_of_parameters rfl)

/-- Settings survive the action of their filter: what the registry makes of it is of the same kind,
describes itself by the same action, and does the same to every image. -/
theorem exists_create?_action (settings : FilterSettings) :
    ∃ f, builtin.create? (Filter.new settings).action = some f
      ∧ f.kind = settings.kind
      ∧ f.action = (Filter.new settings).action
      ∧ ∀ (source : Image) (reference : Option Image) (progress : Progress),
        f.apply source reference progress
          = (Filter.new settings).apply source reference progress :=
  ⟨.new settings, create?_action (.new settings), rfl, rfl, fun _ _ _ => rfl⟩

end Registry

end Darkroom
