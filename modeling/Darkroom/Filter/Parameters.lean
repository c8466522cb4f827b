import Darkroom.Action.Basic
import Darkroom.Filter.Basic

/-!
# The action of a filter

A filter describes itself by an action, and settings are read back from one. A parameter that is
missing or of the wrong kind takes its default, and an unknown number takes the default meaning, so
every action of a known kind gives settings.
-/

namespace Darkroom

open ToParam (toParam)

/-! ## Brightness, contrast and gamma -/

namespace Contrast

/-- The settings as parameters. All of them are written, also those that are as in the default, so
that a later default does not change what an action means. -/
def parameters (c : Contrast) : List Parameter :=
  [⟨"channel", toParam (Int64.ofNat c.channel.index)⟩, ⟨"brightness", toParam c.brightness⟩,
   ⟨"contrast", toParam c.contrast⟩, ⟨"gamma", toParam c.gamma⟩]

/-- The settings that an action holds. A channel of no known number is taken for all colors
together. -/
def ofAction (a : Action) : Contrast where
  channel := (Channel.ofIndex? (a.get "channel" (0 : Int64)).toInt).getD default.channel
  brightness := a.get "brightness" default.brightness
  contrast := a.get "contrast" default.contrast
  gamma := a.get "gamma" default.gamma

end Contrast

/-! ## White balance -/

namespace WhiteBalance

def parameters (w : WhiteBalance) : List Parameter :=
  [⟨"black", toParam w.black⟩, ⟨"expositionMain", toParam w.expositionMain⟩,
   ⟨"expositionFine", toParam w.expositionFine⟩, ⟨"temperature", toParam w.temperature⟩,
   ⟨"green", toParam w.green⟩, ⟨"dark", toParam w.dark⟩, ⟨"gamma", toParam w.gamma⟩,
   ⟨"saturation", toParam w.saturation⟩, ⟨"clipSaturation", toParam w.clipSaturation⟩,
   ⟨"overExposureIndicator", toParam w.overExposureIndicator⟩,
   ⟨"preventClipping", toParam w.preventClipping⟩]

def ofAction (a : Action) : WhiteBalance where
  black := a.get "black" default.black
  expositionMain := a.get "expositionMain" default.expositionMain
  expositionFine := a.get "expositionFine" default.expositionFine
  temperature := a.get "temperature" default.temperature
  green := a.get "green" default.green
  dark := a.get "dark" default.dark
  gamma := a.get "gamma" default.gamma
  saturation := a.get "saturation" default.saturation
  clipSaturation := a.get "clipSaturation" default.clipSaturation
  overExposureIndicator := a.get "overExposureIndicator" default.overExposureIndicator
  preventClipping := a.get "preventClipping" default.preventClipping

end WhiteBalance

/-! ## Curves -/

def CurveKind.code : CurveKind → Int64
  | smooth => 0
  | free => 1

def CurveKind.ofCode (code : Int64) : CurveKind :=
  if code = 1 then free else smooth

namespace Curves.Settings

/-- The key under which an action holds the list of a channel. It has the number of the channel, not
its name. -/
def key (channel : Channel) : String :=
  match channel with
  | .luminosity => "values0"
  | .red => "values1"
  | .green => "values2"
  | .blue => "values3"
  | .alpha => "values4"

/-- The settings as parameters. An empty list is left out, since reading gives an empty list where
there is none. -/
def parameters (s : Settings) : List Parameter :=
  [⟨"curveBitDepth", toParam (Int64.ofNat s.depth.bits)⟩, ⟨"curveType", toParam s.kind.code⟩]
    ++ Channel.all.filterMap fun channel =>
      let points := s.lists.get channel
      if points.isEmpty then none else some ⟨key channel, toParam points⟩

/-- The settings that an action holds. Any number of bits but sixteen is taken for eight. -/
def ofAction (a : Action) : Settings where
  kind := .ofCode (a.get "curveType" 0)
  depth := .ofSixteen (a.get "curveBitDepth" (8 : Int64) == 16)
  lists := .ofFn fun channel => a.get (key channel) []

end Curves.Settings

/-! ## Spot repair -/

def Interpolation.code : Interpolation → Int64
  | average => 0
  | linear => 1
  | quadratic => 2
  | cubic => 3

/-- The interpolation of a number. Unknown numbers stand for the average, like a number that is not
there. -/
def Interpolation.ofCode (code : Int64) : Interpolation :=
  if code = 1 then linear else if code = 2 then quadratic else if code = 3 then cubic else average

def Direction.code : Direction → Int64
  | twoDim => 0
  | vertical => 1
  | horizontal => 2

def Direction.ofCode (code : Int64) : Direction :=
  if code = 1 then vertical else if code = 2 then horizontal else twoDim

namespace SpotRepair

def parameters (r : SpotRepair) : List Parameter :=
  [⟨"interpolationMethod", toParam r.interpolation.code⟩, ⟨"direction", toParam r.direction.code⟩,
   ⟨"hotPixels", toParam r.spots⟩]

def ofAction (a : Action) : SpotRepair where
  interpolation := .ofCode (a.get "interpolationMethod" 0)
  direction := .ofCode (a.get "direction" 0)
  spots := a.get "hotPixels" []

end SpotRepair

/-! ## All kinds -/

namespace FilterSettings

/-- The settings as parameters. The kinds without settings have none, so their actions differ in the
identifier only. -/
def parameters : FilterSettings → List Parameter
  | contrast settings => settings.parameters
  | whiteBalance settings => settings.parameters
  | curves settings => settings.parameters
  | spotRepair settings => settings.parameters
  | autoExposure | autoLevels | equalize | normalize => []

/-- The settings that an action holds for a kind of filter. The kind comes from the identifier, and
the identifier is not looked at again. -/
def ofAction (kind : FilterKind) (a : Action) : FilterSettings :=
  match kind with
  | .contrast => contrast (.ofAction a)
  | .whiteBalance => whiteBalance (.ofAction a)
  | .curves => curves (.ofAction a)
  | .autoExposure => autoExposure
  | .autoLevels => autoLevels
  | .equalize => equalize
  | .normalize => normalize
  | .spotRepair => spotRepair (.ofAction a)

end FilterSettings

namespace Filter

/-- The action that describes the last run. The pixels of another image are not part of it, so a run
that measured one is not reproducible. -/
def action (f : Filter) : Action where
  identifier := f.kind.identifier
  version := FilterKind.version
  category := if f.usedReference then .complex else .reproducible
  displayName := some f.kind.displayName
  parameters := f.settings.parameters

end Filter

end Darkroom
