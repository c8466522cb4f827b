import Darkroom.Filter.Apply

/-!
# Plans

What a filter is going to do with an image is settled before it changes the first pixel: it measures
an image, if it is of a kind that measures, and from there on works on rows or spots only. A plan is
what is known at that moment.
-/

namespace Darkroom

/-- Work of a filter that cancellation may stop between two of its units. A unit is a row or a spot,
and is never half done. -/
inductive Work where
  | rows (band : Image.Band) (op : Image.RowOp)
  | spots (repair : SpotRepair)

def Work.run (work : Work) (source : Image) (progress : Progress) : Image × Progress :=
  match work with
  | rows band op => source.processRows progress band op
  | spots repair => repair.apply source progress

/-- The tables applied to every pixel of an image. The band leaves room for what was reported
before. -/
def Luts.work (luts : Luts) (image : Image) (band : Image.Band) : Work :=
  .rows band (Image.pixelOp image.depth luts.mapPixel)

def WhiteBalance.work (w : WhiteBalance) (image : Image) : Work :=
  let m := Balance.multipliers w.temperature w.green
  let r := Balance.response w (if w.clipSaturation then 1.0 else m.green) image.depth.segments
  let m := if w.preventClipping then Balance.withoutClipping image m else m
  .rows ⟨0, 100⟩ (Image.pixelOp image.depth (Balance.balancedPixel w m r))

/-- What a filter is going to do. Everything that can fail has been done when there is a plan, so
carrying it out always gives an image. -/
structure Plan where
  /-- The filter as it is left behind. -/
  filter : Filter
  /-- The percentages reported before the work. -/
  reports : List Nat
  work : Work

/-- Carries out a plan. The reports come first, in order, and then those of the work. -/
def Plan.run (plan : Plan) (source : Image) (progress : Progress) : Filtered :=
  let (image, progress) := plan.work.run source (plan.reports.foldl Progress.post progress)
  ⟨plan.filter, image, progress⟩

namespace Filter

/-- The plan of a kind that measures an image. Measuring is done when the plan is made, and is
reported as the first ten percent. -/
def measuringPlan (f : Filter) (source : Image) (reference : Option Image)
    (work : Histogram → Work) : Except FilterError Plan :=
  match measured source reference with
  | .error e => .error e
  | .ok image => .ok ⟨{ f with usedReference := reference.isSome }, [10], work (.ofImage image)⟩

/-- The plan of a filter for an image. Its parts are those of `Filter.apply`, with the work held
back. -/
def plan (f : Filter) (source : Image) (reference : Option Image) : Except FilterError Plan :=
  match f.settings with
  | .contrast settings => .ok ⟨f, [], (settings.luts source.depth).work source ⟨0, 100⟩⟩
  | .whiteBalance settings => .ok ⟨f, [], settings.work source⟩
  | .curves settings =>
    .ok ⟨f, [5], ((Curves.ofSettings settings).converted source.depth).luts.work source ⟨5, 100⟩⟩
  | .spotRepair settings => .ok ⟨f, [], .spots settings⟩
  | .autoExposure => f.measuringPlan source reference fun h => (Balance.exposing h).work source
  | .autoLevels => f.measuringPlan source reference fun h =>
    (h.autoLevels Float).luts.work source ⟨10, 100⟩
  | .equalize => f.measuringPlan source reference fun h => h.equalizing.work source ⟨10, 100⟩
  | .normalize => f.measuringPlan source reference fun h => h.normalizing.work source ⟨10, 100⟩

end Filter

end Darkroom
