import Darkroom.Color

/-!
# Bytes with checked indices

Here stored bytes are read and written only after a look at how many there are. An access that leaves
them gives nothing, and so does everything that it is a part of.
-/

namespace Darkroom.Bytes

/-! ## One access -/

/-- The `count` bytes from `start` on. The end is compared with the number of bytes, so an empty
slice may begin right behind the last one. -/
def slice? (bytes : Array UInt8) (start count : Nat) : Option (Array UInt8) :=
  if start + count ≤ bytes.size then some (bytes.extract start (start + count)) else none

/-- Other bytes in the place of those from `start` on. The number of bytes stays the same; bytes
that would stand behind the end give nothing. -/
def put? (bytes : Array UInt8) (start : Nat) (part : Array UInt8) : Option (Array UInt8) :=
  if start + part.size ≤ bytes.size then
    some (bytes.mapIdx fun i byte => if start ≤ i then part.getD (i - start) byte else byte)
  else none

/-- Changes the `count` bytes from `start` on. The new bytes are put back where the old ones were,
and there should be as many. -/
def update? (bytes : Array UInt8) (start count : Nat) (f : Array UInt8 → Option (Array UInt8)) :
    Option (Array UInt8) := do
  let old ← slice? bytes start count
  let new ← f old
  put? bytes start new

def pixel? (depth : Depth) (bytes : Array UInt8) (start : Nat) : Option Pixel :=
  (slice? bytes start depth.pixelBytes).map (Pixel.read depth · 0)

def putPixel? (depth : Depth) (bytes : Array UInt8) (start : Nat) (p : Pixel) :
    Option (Array UInt8) :=
  put? bytes start (p.bytes depth).toArray

/-! ## Chunk by chunk -/

/-- Changes chunks of `count` bytes one after the other, each by its number. A shorter chunk at the end
is left alone. -/
def eachChunk? (count : Nat) (f : Nat → Array UInt8 → Option (Array UInt8))
    (bytes : Array UInt8) : Option (Array UInt8) :=
  (List.range (bytes.size / count)).foldlM
    (fun bytes k => update? bytes (k * count) count (f k)) bytes

/-- Changes pixels one after the other, each read from bytes in which those before it are changed
already. -/
def eachPixel? (depth : Depth) (f : Pixel → Pixel) (bytes : Array UInt8) : Option (Array UInt8) :=
  eachChunk? depth.pixelBytes (fun _ chunk => do
    let p ← pixel? depth chunk 0
    putPixel? depth chunk 0 (f p)) bytes

def pixels? (depth : Depth) (bytes : Array UInt8) : Option (List Pixel) :=
  (List.range (bytes.size / depth.pixelBytes)).mapM fun k =>
    pixel? depth bytes (k * depth.pixelBytes)

/-- The channel values one after the other. At 8 bits every byte is one, so nothing can go wrong. -/
def values? (depth : Depth) (bytes : Array UInt8) : Option (List UInt16) :=
  match depth with
  | .eight => some (bytes.toList.map (·.toUInt16))
  | .sixteen => (List.range (bytes.size / 2)).mapM fun k =>
    (slice? bytes (k * 2) 2).map fun pair => Pixel.word (pair.getD 0 0) (pair.getD 1 0)

def ofValue (depth : Depth) (v : UInt16) : List UInt8 :=
  match depth with
  | .eight => [v.toUInt8]
  | .sixteen => [v.toUInt8, (v >>> 8).toUInt8]

def ofValues (depth : Depth) (values : List UInt16) : Array UInt8 :=
  (values.flatMap (ofValue depth)).toArray

end Darkroom.Bytes
