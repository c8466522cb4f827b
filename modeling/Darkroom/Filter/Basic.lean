import Darkroom.Balance.Basic
import Darkroom.Repair.Basic
import Darkroom.Tone.Contrast
import Darkroom.Tone.Curves.Sets

/-!
# Filters

There are eight kinds of filters. Each is known under an identifier, which is what actions refer to,
and has a version, which says what its parameters mean. Four kinds have settings; the others derive
all they need from the image.
-/

namespace Darkroom

/-- The kinds of filters. The list is closed, so the questions that a registry is asked about kinds
can be decided. -/
inductive FilterKind where
  | contrast
  | whiteBalance
  | curves
  | autoExposure
  | autoLevels
  | equalize
  | normalize
  | spotRepair
  deriving DecidableEq

namespace FilterKind

/-- All kinds, sorted by identifier, which is the order in which registries list them. -/
def all : List FilterKind :=
  [autoExposure, autoLevels, contrast, curves, equalize, spotRepair, normalize, whiteBalance]

/-- What actions call a kind. The spellings are fixed, odd ones included, since stored actions have
them. -/
def identifier : FilterKind → String
  | contrast => "digikam:BCGFilter"
  | whiteBalance => "digikam:WhiteBalanceFilter"
  | curves => "digikam:CurvesFilter"
  | autoExposure => "digikam:AutoExpoFilter"
  | autoLevels => "digikam:AutoLevelsfilter"
  | equalize => "digikam:EqualizeFilter"
  | normalize => "digikam:NormalizeFilter"
  | spotRepair => "digikam:HotPixelFilter"

def displayName : FilterKind → String
  | contrast => "Brightness / Contrast / Gamma Filter"
  | whiteBalance => "White Balance Tool"
  | curves => "Adjust Curves"
  | autoExposure => "Auto Exposure"
  | autoLevels => "Auto Levels"
  | equalize => "Auto Equalize"
  | normalize => "Auto Normalize"
  | spotRepair => "Hot Pixels Fixer"

/-- The version of the parameters, the same for all kinds. An action of a later version may hold
parameters with another meaning, so it is not rebuilt. -/
def version : Int32 := 1

/-- The kind of an identifier. No two kinds have the same one, so it does not matter where the
search begins. -/
def ofIdentifier? (identifier : String) : Option FilterKind :=
  all.find? fun kind => kind.identifier == identifier

end FilterKind

/-- A kind of filter with its settings. The kinds without settings differ only in what they derive
from the histogram of an image. -/
inductive FilterSettings where
  | contrast (settings : Contrast)
  | whiteBalance (settings : WhiteBalance)
  | curves (settings : Curves.Settings)
  | autoExposure
  | autoLevels
  | equalize
  | normalize
  | spotRepair (settings : SpotRepair)
deriving DecidableEq

def FilterSettings.kind : FilterSettings → FilterKind
  | contrast _ => .contrast
  | whiteBalance _ => .whiteBalance
  | curves _ => .curves
  | autoExposure => .autoExposure
  | autoLevels => .autoLevels
  | equalize => .equalize
  | normalize => .normalize
  | spotRepair _ => .spotRepair

/-- A filter, which remembers whether its last run measured an image other than the source. Nothing
else about a run stays with it, so a filter can be run again on other images. -/
structure Filter where
  settings : FilterSettings
  usedReference : Bool

namespace Filter

def new (settings : FilterSettings) : Filter :=
  ⟨settings, false⟩

def kind (f : Filter) : FilterKind :=
  f.settings.kind

end Filter

end Darkroom
