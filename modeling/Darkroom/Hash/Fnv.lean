/-!
# The FNV-1a hash

A 64-bit hash of octets: each is combined with the state, which is then multiplied by a prime.
-/

namespace Darkroom.Hash

def fnvBasis : UInt64 := 0xcbf29ce484222325

def fnvStep (h : UInt64) (b : UInt8) : UInt64 :=
  (h ^^^ b.toUInt64) * 0x100000001b3

/-- The hash of octets. -/
def fnv (bytes : List UInt8) : UInt64 :=
  bytes.foldl fnvStep fnvBasis

end Darkroom.Hash
