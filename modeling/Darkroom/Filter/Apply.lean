import Darkroom.Balance.Exposure
import Darkroom.Filter.Basic
import Darkroom.FilterError
import Darkroom.Tone.Curves.Transfer
import Darkroom.Tone.Levels
import Darkroom.Tone.Stretch

/-!
# Filters at work

A filter turns a source image into a new one and reports its progress on the way. The kinds that
measure an image take a histogram first, of the source or of a reference image given beside it, which
needs the depth of the source.
-/

namespace Darkroom

/-- What a filter leaves behind when it is done, or was cancelled on the way. The image of a
cancelled run is that of the source with some of the work done. -/
structure Filtered where
  filter : Filter
  image : Image
  progress : Progress

namespace Histogram

/-- Levels that stretch red, green and blue by themselves. Luminosity and alpha keep the levels that
change nothing. -/
def autoLevels (α : Type) [Arith α] (h : Histogram) : Levels α :=
  [Channel.red, .green, .blue].foldl (fun levels channel => levels.auto h channel)
    (Levels.new h.depth)

end Histogram

namespace Filter

/-- The image that is measured. Only a reference is checked here, since a source is refused before,
when the run looks at its images. -/
def measured (source : Image) : Option Image → Except FilterError Image
  | none => .ok source
  | some reference =>
    if reference.isNull then .error .nullImage
    else if reference.depth ≠ source.depth then
      .error (.depthMismatch (UInt32.ofNat source.depth.bits) (UInt32.ofNat reference.depth.bits))
    else .ok reference

/-- Measures an image, reports it, and goes on with what the histogram asks for. The filter
remembers whether there was a reference, as its action depends on that. -/
def measuring (f : Filter) (source : Image) (reference : Option Image) (progress : Progress)
    (work : Histogram → Progress → Image × Progress) : Except FilterError Filtered :=
  match measured source reference with
  | .error e => .error e
  | .ok image =>
    let (result, progress) := work (.ofImage image) (progress.post 10)
    .ok ⟨{ f with usedReference := reference.isSome }, result, progress⟩

/-- Runs a filter on an image. Only images can make it fail, never the settings of the filter. -/
def apply (f : Filter) (source : Image) (reference : Option Image) (progress : Progress) :
    Except FilterError Filtered :=
  match f.settings with
  | .contrast settings =>
    let (image, progress) := (settings.luts source.depth).apply source progress ⟨0, 100⟩
    .ok ⟨f, image, progress⟩
  | .whiteBalance settings =>
    let (image, progress) := settings.apply source progress
    .ok ⟨f, image, progress⟩
  | .curves settings =>
    let luts := ((Curves.ofSettings settings).converted source.depth).luts
    let (image, progress) := luts.apply source (progress.post 5) ⟨5, 100⟩
    .ok ⟨f, image, progress⟩
  | .spotRepair settings =>
    let (image, progress) := settings.apply source progress
    .ok ⟨f, image, progress⟩
  | .autoExposure => f.measuring source reference progress fun h progress =>
    (Balance.exposing h).apply source progress
  | .autoLevels => f.measuring source reference progress fun h progress =>
    (h.autoLevels Float).luts.apply source progress ⟨10, 100⟩
  | .equalize => f.measuring source reference progress fun h progress =>
    h.equalizing.apply source progress ⟨10, 100⟩
  | .normalize => f.measuring source reference progress fun h progress =>
    h.normalizing.apply source progress ⟨10, 100⟩

end Filter

end Darkroom
