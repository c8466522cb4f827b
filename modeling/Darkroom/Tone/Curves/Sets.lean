import Darkroom.Tone.Curves.Plot

/-!
# Curves for all channels

Curves can be brought to the other depth, built from settings, and give the settings that rebuild
them. At the other depth the control points of a smooth curve are scaled and it is drawn anew; the
values of a free curve are interpolated or thinned out. What is done to curves is also data, so that
it can be done one after the other.
-/

namespace Darkroom

/-- The curves of all channels. Filters apply the curve of a color first and that of the luminosity
after it. -/
structure Curves where
  depth : Depth
  channels : PerChannel Curve
  deriving DecidableEq

namespace Curve

/-! ## The other depth -/

def scaled (target : Depth) (v : UInt16) : UInt16 :=
  match target with
  | .eight => downscale v
  | .sixteen => upscale v

/-- One entry of a free curve at 16 bits, interpolated between its two neighbours at 8 bits. At
multiples of 257 only the first one counts, and behind the last value there is no other. -/
def stretchedEntry (α : Type) [Arith α] (values : Array UInt16) (i : Nat) : Nat :=
  let j := i / 257
  let f : α := Arith.ofNat (i % 257) / Arith.ofNat 257
  let a : α := Arith.ofNat (values.getD j 0).toNat
  let b : α := Arith.ofNat (values.getD (min (j + 1) (values.size - 1)) 0).toNat
  roundClamp (((Arith.ofNat 1 - f) * a + f * b) * Arith.ofNat 257) 65535

def stretched (α : Type) [Arith α] (values : Array UInt16) : Array UInt16 :=
  Luts.tableOf .sixteen (stretchedEntry α values)

/-- The values of a free curve at 8 bits: every 257th. These are the levels that the values at 8
bits go up to, so nothing is lost of a curve that was stretched before. -/
def thinned (values : Array UInt16) : Array UInt16 :=
  Array.ofFn fun i : Fin ((values.size + 256) / 257) => downscale (values.getD (257 * i.val) 0)

/-- A curve at the other depth, not yet drawn. An empty slot takes what the linear curve has there,
so the end slots are never empty afterwards. -/
def rescaled (target : Depth) (c : Curve) : Curve :=
  let start := { linear target with kind := c.kind }
  match c.kind with
  | .smooth =>
    { start with
      slots := List.zipWith (fun slot fallback =>
        match slot with
        | some k => some ⟨scaled target k.x, scaled target k.y⟩
        | none => fallback) c.slots start.slots }
  | .free =>
    { start with
      values := match target with
        | .sixteen => stretched Float c.values
        | .eight => thinned c.values }

/-- A curve at another depth. At its own depth nothing happens, so values that were not drawn stay
as they are. -/
def converted (source target : Depth) (c : Curve) : Curve :=
  if source = target then c else (c.rescaled target).calculate target

/-! ## Free values -/

/-- Seventeen evenly spaced samples of a list of values. A sample that is not there is zero. There
are as many as slots, so they can be the control points of a curve. -/
def samples (depth : Depth) (values : List Point) : List Point :=
  (List.range slotCount).map fun i =>
    let bin := i * depth.maxValue / (slotCount - 1)
    ⟨Int32.ofNat bin, ((values[bin]?).map Point.y).getD 0⟩

/-- The smooth curve through the samples of a list of values. It is how a list of the wrong length
is understood. -/
def sampled (depth : Depth) (values : List Point) : Curve :=
  ((linear depth).setPointsFrom depth 0 (samples depth values)).calculate depth

/-- Sets the values from a list with one entry a level. The empty list resets the curve; a list of
any other length is taken to be meant for 8 bits if it has 256 entries, else for 16 bits, and is
sampled. -/
def setValues (depth : Depth) (c : Curve) (values : List Point) : Curve :=
  if values.isEmpty then c.reset depth
  else if values.length = depth.segments then
    { c with values := (values.map fun p => bounded depth p.y.toInt).toArray }
  else
    let source := if values.length = Depth.eight.segments then Depth.eight else .sixteen
    { c with values := ((sampled source values).converted source depth).values }

end Curve

namespace Curves

def new (depth : Depth) : Curves :=
  ⟨depth, .ofFn fun _ => .linear depth⟩

def modify (c : Curves) (channel : Channel) (f : Depth → Curve → Curve) : Curves :=
  { c with channels := c.channels.set channel (f c.depth (c.channels.get channel)) }

def calculate (c : Curves) : Curves :=
  { c with channels := c.channels.map (Curve.calculate c.depth) }

def converted (c : Curves) (depth : Depth) : Curves :=
  ⟨depth, c.channels.map (Curve.converted c.depth depth)⟩

/-- Whether all curves count as changing nothing. Then the settings that rebuild them need no
lists. -/
def isLinear (c : Curves) : Bool :=
  c.channels.toList.all (Curve.isLinear c.depth)

/-! ## Settings -/

/-- What curves are built from: for each channel control points or, for free curves, values. The
empty list is a linear curve. -/
structure Settings where
  kind : CurveKind
  depth : Depth
  lists : PerChannel (List Point)
  deriving DecidableEq

def Settings.default : Settings :=
  ⟨.smooth, .eight, .ofFn fun _ => []⟩

def Settings.isLinear (s : Settings) : Bool :=
  s.lists.toList.all (·.isEmpty)

/-- The curve of one channel. It starts as the linear one, so an empty list leaves that. -/
def curveOf (kind : CurveKind) (depth : Depth) (points : List Point) : Curve :=
  let start := { Curve.linear depth with kind := kind }
  match kind with
  | .smooth => (start.setPoints depth points).calculate depth
  | .free => start.setValues depth points

/-- The curves that settings describe. All of them are of the kind of the settings, and none depends
on another channel. -/
def ofSettings (s : Settings) : Curves :=
  ⟨s.depth, s.lists.map (curveOf s.kind s.depth)⟩

/-- Settings that rebuild the curves. They are free as soon as one curve is, because the values of a
free curve are in no control points, while those of a smooth curve can be set one by one. -/
def settings (c : Curves) : Settings :=
  let kind := if c.channels.toList.any (·.kind = .free) then CurveKind.free else .smooth
  { kind
    depth := c.depth
    lists :=
      if c.isLinear then .ofFn fun _ => []
      else c.channels.map fun curve =>
        match kind with
        | .smooth => curve.points
        | .free => curve.valuePoints }

/-! ## Edits -/

/-- One thing that is done to curves. The first two ask nothing of the curves there were; all others
change them. -/
inductive Edit where
  | new (depth : Depth)
  | ofSettings (settings : Settings)
  | converted (depth : Depth)
  | reset (channel : Channel)
  | setKind (channel : Channel) (kind : CurveKind)
  | setPoint (channel : Channel) (slot : Nat) (p : Point)
  | setPoints (channel : Channel) (points : List Point)
  | setValue (channel : Channel) (bin : Nat) (v : Int)
  | setValues (channel : Channel) (values : List Point)
  | calculate (channel : Channel)
  | calculateAll
  deriving DecidableEq

/-- The curves after an edit. Most edits leave all channels but one as they were. -/
def edit (c : Curves) : Edit → Curves
  | .new depth => new depth
  | .ofSettings settings => ofSettings settings
  | .converted depth => c.converted depth
  | .reset channel => c.modify channel Curve.reset
  | .setKind channel kind => c.modify channel fun _ curve => { curve with kind }
  | .setPoint channel slot p => c.modify channel fun depth curve => curve.setPoint depth slot p
  | .setPoints channel points => c.modify channel fun depth curve => curve.setPoints depth points
  | .setValue channel bin v => c.modify channel fun depth curve => curve.setValue depth bin v
  | .setValues channel values => c.modify channel fun depth curve => curve.setValues depth values
  | .calculate channel => c.modify channel Curve.calculate
  | .calculateAll => c.calculate

/-- Linear curves of a depth, edited in order. Every state that curves can come to is of this
form. -/
def edited (depth : Depth) (edits : List Edit) : Curves :=
  edits.foldl edit (new depth)

end Curves

end Darkroom
