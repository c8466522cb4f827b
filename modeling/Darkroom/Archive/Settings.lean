import Darkroom.Archive.Geometry
import Darkroom.Filter.Basic
import Darkroom.Json.Settled
import Darkroom.Tone.Levels

/-!
# Settings in JSON

The settings of filters are records in which every field has a default. A filter with its settings is
the record of the settings with the kind of the filter in the member `filter`.
-/

namespace Darkroom

open Json

/-! ## Settings -/

instance : Coded Contrast where
  toJson c := record
    [("channel", toJson c.channel), ("brightness", toJson c.brightness),
     ("contrast", toJson c.contrast), ("gamma", toJson c.gamma)]
  ofJson? v :=
    let d := Contrast.default
    match fields? ["channel", "brightness", "contrast", "gamma"] v with
    | some [channel, brightness, contrast, gamma] => do
      let channel ← orElse d.channel channel
      let brightness ← orElse d.brightness brightness
      let contrast ← orElse d.contrast contrast
      let gamma ← orElse d.gamma gamma
      pure ⟨channel, brightness, contrast, gamma⟩
    | _ => none

instance : Coded WhiteBalance where
  toJson w := record
    [("black", toJson w.black), ("exposition_main", toJson w.expositionMain),
     ("exposition_fine", toJson w.expositionFine), ("temperature", toJson w.temperature),
     ("green", toJson w.green), ("dark", toJson w.dark), ("gamma", toJson w.gamma),
     ("saturation", toJson w.saturation), ("clip_saturation", toJson w.clipSaturation),
     ("over_exposure_indicator", toJson w.overExposureIndicator),
     ("prevent_clipping", toJson w.preventClipping)]
  ofJson? v :=
    let d := WhiteBalance.default
    match fields? ["black", "exposition_main", "exposition_fine", "temperature", "green", "dark",
        "gamma", "saturation", "clip_saturation", "over_exposure_indicator",
        "prevent_clipping"] v with
    | some [black, main, fine, temperature, green, dark, gamma, saturation, clip, indicator,
        prevent] => do
      let black ← orElse d.black black
      let expositionMain ← orElse d.expositionMain main
      let expositionFine ← orElse d.expositionFine fine
      let temperature ← orElse d.temperature temperature
      let green ← orElse d.green green
      let dark ← orElse d.dark dark
      let gamma ← orElse d.gamma gamma
      let saturation ← orElse d.saturation saturation
      let clipSaturation ← orElse d.clipSaturation clip
      let overExposureIndicator ← orElse d.overExposureIndicator indicator
      let preventClipping ← orElse d.preventClipping prevent
      pure
        { black, expositionMain, expositionFine, temperature, green, dark, gamma, saturation,
          clipSaturation, overExposureIndicator, preventClipping }
    | _ => none

instance : Coded CurveKind where
  toJson
    | .smooth => str "smooth"
    | .free => str "free"
  ofJson? := namedJson [("smooth", .smooth), ("free", .free)]

instance {α : Type} [Coded α] : Coded (PerChannel α) where
  toJson p := toJson p.toList
  ofJson? v := (ofJson? v).bind PerChannel.ofList?

instance : Coded Curves.Settings where
  toJson s := record
    [("curve_type", toJson s.kind), ("sixteen_bit", toJson s.depth.isSixteen),
     ("values", toJson s.lists)]
  ofJson? v :=
    let d := Curves.Settings.default
    match fields? ["curve_type", "sixteen_bit", "values"] v with
    | some [kind, sixteenBit, lists] => do
      let kind ← orElse d.kind kind
      let sixteenBit ← orElse d.depth.isSixteen sixteenBit
      let lists ← orElse d.lists lists
      pure ⟨kind, .ofSixteen sixteenBit, lists⟩
    | _ => none

instance : Coded Interpolation where
  toJson
    | .average => str "average"
    | .linear => str "linear"
    | .quadratic => str "quadratic"
    | .cubic => str "cubic"
  ofJson? := namedJson
    [("average", .average), ("linear", .linear), ("quadratic", .quadratic), ("cubic", .cubic)]

instance : Coded Direction where
  toJson
    | .twoDim => str "two_dim"
    | .vertical => str "vertical"
    | .horizontal => str "horizontal"
  ofJson? := namedJson
    [("two_dim", .twoDim), ("vertical", .vertical), ("horizontal", .horizontal)]

instance : Coded SpotRepair where
  toJson r := record
    [("interpolation", toJson r.interpolation), ("direction", toJson r.direction),
     ("hot_pixels", toJson r.spots)]
  ofJson? v :=
    let d := SpotRepair.default
    match fields? ["interpolation", "direction", "hot_pixels"] v with
    | some [interpolation, direction, spots] => do
      let interpolation ← orElse d.interpolation interpolation
      let direction ← orElse d.direction direction
      let spots ← orElse d.spots spots
      pure ⟨interpolation, direction, spots⟩
    | _ => none

/-! ## Filters -/

/-- The word for a kind of filter. It is shorter than the identifier and need not agree with it,
since it names settings and not actions. -/
def FilterKind.word : FilterKind → String
  | contrast => "bcg"
  | whiteBalance => "white_balance"
  | curves => "curves"
  | autoExposure => "auto_exposure"
  | autoLevels => "auto_levels"
  | equalize => "equalize"
  | normalize => "normalize"
  | spotRepair => "hot_pixels"

def FilterKind.ofWord? (word : String) : Option FilterKind :=
  all.find? fun kind => kind.word == word

/-- A filter without settings takes a record with any members, and the empty array. The members are
skipped like unknown ones of a record. -/
def withoutSettings (settings : FilterSettings) : Json → Option FilterSettings
  | .array (_ :: _) => none
  | _ => some settings

instance : Coded FilterSettings where
  toJson s :=
    ofKind "filter" s.kind.word
      (match s with
       | .contrast settings => toJson settings
       | .whiteBalance settings => toJson settings
       | .curves settings => toJson settings
       | .spotRepair settings => toJson settings
       | .autoExposure | .autoLevels | .equalize | .normalize => record [])
  ofJson? v :=
    match kind? "filter" v with
    | none => none
    | some (name, rest) =>
      match FilterKind.ofWord? name with
      | none => none
      | some .contrast => (ofJson? rest).map .contrast
      | some .whiteBalance => (ofJson? rest).map .whiteBalance
      | some .curves => (ofJson? rest).map .curves
      | some .autoExposure => withoutSettings .autoExposure rest
      | some .autoLevels => withoutSettings .autoLevels rest
      | some .equalize => withoutSettings .equalize rest
      | some .normalize => withoutSettings .normalize rest
      | some .spotRepair => (ofJson? rest).map .spotRepair

/-! ## Levels -/

instance : Coded (ChannelLevels Float) where
  toJson l := record
    [("low_input", toJson l.lowInput), ("high_input", toJson l.highInput),
     ("gamma", toJson l.gamma), ("low_output", toJson l.lowOutput),
     ("high_output", toJson l.highOutput)]
  ofJson? v :=
    match fields? ["low_input", "high_input", "gamma", "low_output", "high_output"] v with
    | some [lowInput, highInput, gamma, lowOutput, highOutput] => do
      let lowInput ← required lowInput
      let highInput ← required highInput
      let gamma ← required gamma
      let lowOutput ← required lowOutput
      let highOutput ← required highOutput
      pure ⟨lowInput, highInput, gamma, lowOutput, highOutput⟩
    | _ => none

instance : Coded (Levels Float) where
  toJson l := record [("depth", toJson l.depth), ("channels", toJson l.channels)]
  ofJson? v :=
    match fields? ["depth", "channels"] v with
    | some [depth, channels] => do
      let depth ← required depth
      let channels ← required channels
      pure ⟨depth, channels⟩
    | _ => none

end Darkroom
