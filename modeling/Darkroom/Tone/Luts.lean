import Darkroom.Arithmetic
import Darkroom.Image.Rows
import Darkroom.Tone.PerChannel

/-!
# Lookup tables

A table has one entry for each value of its depth. A component without a table keeps its value.
-/

namespace Darkroom

/-- Lookup tables for the components of pixels of one depth. Components are mapped by themselves, so
a table never needs the other colors of a pixel. -/
structure Luts where
  depth : Depth
  red : Option (Array UInt16)
  green : Option (Array UInt16)
  blue : Option (Array UInt16)
  alpha : Option (Array UInt16)
  deriving DecidableEq

namespace Luts

def empty (depth : Depth) : Luts :=
  ⟨depth, none, none, none, none⟩

/-- The table of a function from values to values. Results are to be channel values; nothing brings
them into range here. -/
def tableOf (depth : Depth) (f : Nat → Nat) : Array UInt16 :=
  Array.ofFn fun i : Fin depth.segments => UInt16.ofNat (f i.val)

/-- Another table for one component. It takes the place of one that was there. -/
def set (luts : Luts) (component : Component) (table : Array UInt16) : Luts :=
  match component with
  | .red => { luts with red := some table }
  | .green => { luts with green := some table }
  | .blue => { luts with blue := some table }
  | .alpha => { luts with alpha := some table }

def table (luts : Luts) : Component → Option (Array UInt16)
  | .red => luts.red
  | .green => luts.green
  | .blue => luts.blue
  | .alpha => luts.alpha

def withTable (luts : Luts) (component : Component) (f : Nat → Nat) : Luts :=
  luts.set component (tableOf luts.depth f)

/-- The tables with that of a function for red, green and blue. The three share one table, and alpha
stays as it was. -/
def withColorTables (luts : Luts) (f : Nat → Nat) : Luts :=
  let table := tableOf luts.depth f
  { luts with red := some table, green := some table, blue := some table }

/-! ## Mapping -/

/-- The entry of a value; the value itself where there is no entry. So a table that is too short
does no harm. -/
def lookup (table : Option (Array UInt16)) (v : UInt16) : UInt16 :=
  match table with
  | none => v
  | some t => t.getD v.toNat v

def map (luts : Luts) (component : Component) (v : UInt16) : UInt16 :=
  lookup (luts.table component) v

def mapPixel (luts : Luts) (p : Pixel) : Pixel :=
  { blue := luts.map .blue p.blue
    green := luts.map .green p.green
    red := luts.map .red p.red
    alpha := luts.map .alpha p.alpha }

/-- Maps every pixel of an image of the same depth, row by row, as long as nobody asks for
cancellation. -/
def apply (luts : Luts) (image : Image) (progress : Progress) (band : Image.Band) :
    Image × Progress :=
  image.processRows progress band (Image.pixelOp image.depth luts.mapPixel)

end Luts

end Darkroom
