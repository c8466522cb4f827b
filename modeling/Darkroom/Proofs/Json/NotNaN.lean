import Darkroom.Proofs.Json.Scaled

/-!
# Doubles of JSON are numbers

A double that is read from JSON is never NaN (`not_isNaN_toFloat?`). It is a significand, multiplied
once by a power of ten or divided some times by one, and none of these powers is zero, an infinity
or NaN.
-/

namespace Darkroom

namespace Decimal

open Float.Model (Format UnpackedFloat)
open Float.Model.UnpackedFloat

/-! ## Arithmetic that stays away from NaN -/

theorem isNaN_packComponents {s : Sign} {e : BitVec 11} {f : BitVec 52}
    (h : e = -1#11 → f = 0#52) :
    (UnpackedFloat.unpack .binary64 (packComponents .binary64 s e f)).isNaN = false := by
  unfold UnpackedFloat.unpack
  simp only [unpackExponent_packComponents, unpackMantissa_packComponents]
  split
  · rename_i hones
    rw [if_pos (h hones)]
    rfl
  · split
    · split <;> rfl
    · rfl

/-- Packing makes no NaN, however badly a number is rounded. -/
theorem isNaN_pack {u : UnpackedFloat} (h : u.isNaN = false) :
    (Float.ofModel (.pack u)).isNaN = false := by
  have hbits : (Float.ofModel (.pack u)).isNaN
      = (UnpackedFloat.unpack .binary64 (UnpackedFloat.pack .binary64 u)).isNaN := rfl
  rw [hbits]
  fun_cases UnpackedFloat.pack .binary64 u with
  | case1 => cases h
  | case2 s => exact isNaN_packComponents fun _ => rfl
  | case3 s => exact isNaN_packComponents fun _ => rfl
  | case4 s m e hm biased h => exact isNaN_packComponents fun _ => rfl
  | case5 s m e hm bits biased hlow hfull =>
    refine isNaN_packComponents fun hones => ?_
    have hexp : biased % 2 ^ 11 = 2 ^ 11 - 1 := by
      simpa [BitVec.toNat_ofNat] using congrArg BitVec.toNat hones
    have hlow : ¬2 ^ 11 ≤ biased + 1 := hlow
    omega
  | case6 s m e hm bits biased hlow hsmall =>
    exact isNaN_packComponents fun hones => absurd hones (by decide)

theorem isNaN_roundWithAccuracy (s : Sign) (m : Nat) (q : Int) (acc : Accuracy) :
    (roundWithAccuracy .binary64 s m q acc).isNaN = false := by
  unfold roundWithAccuracy
  simp only
  split <;> rfl

section Unpacked

variable {u : UnpackedFloat} (hu : u.isNaN = false) (s : Sign) (m : Nat) (q : Int) (hm : 0 < m)
include hu

theorem isNaN_mul_finite : (UnpackedFloat.mul .binary64 u (.finite s m q hm)).isNaN = false := by
  cases u with
  | notANumber => cases hu
  | infinity s' => rfl
  | zero s' => rfl
  | finite s' m' q' hm' =>
    rw [UnpackedFloat.mul]
    exact isNaN_roundWithAccuracy ..

theorem isNaN_div_finite : (UnpackedFloat.div .binary64 u (.finite s m q hm)).isNaN = false := by
  cases u with
  | notANumber => cases hu
  | infinity s' => rfl
  | zero s' => rfl
  | finite s' m' q' hm' =>
    rw [UnpackedFloat.div]
    exact isNaN_roundWithAccuracy ..

omit s m q hm in
theorem isNaN_unpacked_neg : u.neg.isNaN = false := by
  cases u with
  | notANumber => cases hu
  | _ => rfl

end Unpacked

section Doubles

variable {x : Float} (hx : x.isNaN = false)
include hx

theorem isNaN_mul_ofCanonical {m : Nat} {q : Int} (h : Canonical m q) :
    (x * ofCanonical .positive h).isNaN = false := by
  have hmul : x * ofCanonical .positive h = .ofModel (.pack (UnpackedFloat.mul .binary64
      x.toModel.unpack (Float.Model.pack (.finite .positive m q h.pos)).unpack)) := rfl
  rw [hmul, unpack_pack h]
  exact isNaN_pack (isNaN_mul_finite hx ..)

theorem isNaN_div_ofCanonical {m : Nat} {q : Int} (h : Canonical m q) :
    (x / ofCanonical .positive h).isNaN = false := by
  have hdiv : x / ofCanonical .positive h = .ofModel (.pack (UnpackedFloat.div .binary64
      x.toModel.unpack (Float.Model.pack (.finite .positive m q h.pos)).unpack)) := rfl
  rw [hdiv, unpack_pack h]
  exact isNaN_pack (isNaN_div_finite hx ..)

theorem isNaN_neg : (-x).isNaN = false := by
  have hneg : -x = .ofModel (.pack x.toModel.unpack.neg) := rfl
  rw [hneg]
  exact isNaN_pack (isNaN_unpacked_neg hx)

end Doubles

end Decimal

namespace Numeral

open Decimal
open Float.Model (UnpackedFloat)

theorem isNaN_significand (n : Nat) : (Float.ofScientific n false 0).isNaN = false := by
  rcases Nat.eq_zero_or_pos n with rfl | hpos
  · decide
  rcases Nat.lt_or_ge n (2 ^ 53) with hlt | hge
  · obtain ⟨m, q, h, -⟩ := rounded_self hpos hlt
    have hx : Float.ofScientific n false 0 = ofCanonical .positive h.canonical :=
      ofScientific_rounded hpos (by decide) (by simpa using h)
    rw [hx]
    exact isNaN_pack rfl
  · -- Beyond 53 bits a significand is multiplied by one, which rounds it.
    have hx : Float.ofScientific n false 0
        = .ofModel (.pack (UnpackedFloat.ofScientific .binary64 n 0)) := by
      rw [Float.ofScientific, dif_neg fun h => absurd h.1 (not_lt.mpr hge)]
      rfl
    rw [hx]
    refine isNaN_pack ?_
    have hlow : ¬(0 : Int) < -(2 ^ Float.Model.Format.binary64.exponentBits + (n.log2 : Int)) := by
      have hpos : (0 : Int) < 2 ^ Float.Model.Format.binary64.exponentBits := by decide
      omega
    rw [UnpackedFloat.ofScientific, dif_neg (by omega), if_neg (by decide), if_neg hlow,
      if_pos (by decide)]
    exact isNaN_mul_finite rfl ..

/-- The powers of ten that a significand is scaled by. -/
theorem exists_ofScientific_ten_pow {e : Nat} (he : e ≤ 308) :
    ∃ (m : Nat) (q : Int) (h : Canonical m q),
      Float.ofScientific 1 false e = ofCanonical .positive h := by
  have hle : 1 * 10 ^ e ≤ (2 ^ 54 - 3) * 2 ^ 970 :=
    calc 1 * 10 ^ e = 10 ^ e := Nat.one_mul _
      _ ≤ 10 ^ 308 := Nat.pow_le_pow_right (by decide) he
      _ ≤ (2 ^ 54 - 3) * 2 ^ 970 := by decide +kernel
  obtain ⟨m, q, h⟩ := exists_ten_pow Nat.one_pos hle
  exact ⟨m, q, h.canonical, ofScientific_rounded Nat.one_pos (by omega) (by simpa using h)⟩

theorem isNaN_divided {x : Float} (hx : x.isNaN = false) (places : Nat) :
    (divided x places).isNaN = false := by
  fun_induction divided x places with
  | case1 x places hle =>
    obtain ⟨m, q, h, hten⟩ := exists_ofScientific_ten_pow hle
    rw [hten]
    exact isNaN_div_ofCanonical hx h
  | case2 x places hgt hzero => exact hx
  | case3 x places hgt hzero ih =>
    obtain ⟨m, q, h, hten⟩ := exists_ofScientific_ten_pow (le_refl 308)
    rw [hten] at ih ⊢
    exact ih (isNaN_div_ofCanonical hx h)

theorem isNaN_of_scaled? {significand : Nat} {exponent : Int} {x : Float}
    (h : scaled? significand exponent = some x) : x.isNaN = false := by
  have hsignificand := isNaN_significand significand
  rw [scaled?] at h
  split at h
  · obtain rfl := Option.some.inj h
    exact isNaN_divided hsignificand _
  · split at h
    · split at h
      · obtain rfl := Option.some.inj h
        exact hsignificand
      · cases h
    · obtain ⟨m, q, hc, hten⟩ := exists_ofScientific_ten_pow (e := exponent.natAbs) (by omega)
      rw [hten] at h
      simp only at h
      split at h
      · cases h
      · obtain rfl := Option.some.inj h
        exact isNaN_mul_ofCanonical hsignificand hc

/-- A number stands for no NaN. -/
theorem isNaN_of_toFloat? {n : Numeral} {x : Float} (h : n.toFloat? = some x) :
    x.isNaN = false := by
  rw [toFloat?] at h
  simp only at h
  obtain ⟨y, hy, rfl⟩ := Option.map_eq_some_iff.mp h
  split
  · exact isNaN_neg (isNaN_of_scaled? hy)
  · exact isNaN_of_scaled? hy

end Numeral

end Darkroom
