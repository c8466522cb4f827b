import Darkroom.Hash.Sip
import Darkroom.Image.Basic

/-!
# Telling images apart

The fingerprint of an image covers its size, depth, alpha and bytes. The first difference of two
images is the first pixel, row by row, where their bytes disagree; whether they have alpha does not
enter it.
-/

namespace Darkroom.Image

def wordBytes (n : UInt32) : List UInt8 :=
  [n.toUInt8, (n >>> 8).toUInt8, (n >>> 16).toUInt8, (n >>> 24).toUInt8]

/-- The fingerprint. Size, depth and alpha come before the bytes, so images with the same bytes in
different frames have different inputs. -/
def contentHash (image : Image) : UInt64 :=
  Hash.sip (wordBytes image.width ++ wordBytes image.height
    ++ [image.depth.isSixteen.toUInt8, image.hasAlpha.toUInt8] ++ image.bytes.toList)

def pixelAt (image : Image) (index : Nat) : List UInt8 :=
  (List.range image.depth.pixelBytes).map fun i =>
    image.bytes.getD (index * image.depth.pixelBytes + i) 0

def firstDifferentIndex? (a b : Image) : Option Nat :=
  (List.range a.pixelCount).find? fun i => a.pixelAt i != b.pixelAt i

/-- The first pixel that differs. Images of different geometry differ at the origin, and so do a
null image and one that is not. -/
def firstDifference? (a b : Image) : Option Point :=
  if !a.sameGeometry b || a.isNull != b.isNull then some ⟨0, 0⟩
  else (a.firstDifferentIndex? b).map fun i =>
    ⟨Int32.ofNat (i % a.width.toNat), Int32.ofNat (i / a.width.toNat)⟩

end Darkroom.Image
