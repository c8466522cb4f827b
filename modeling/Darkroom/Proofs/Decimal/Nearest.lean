import Darkroom.Decimal.Reading
import Darkroom.Proofs.Decimal.Rounding

/-!
# The double nearest to a decimal

A decimal is read by one multiplication or division of doubles, or by one of exact numbers if its
digits or its power of ten do not fit a double. Either way the exact product or quotient is rounded
once, so a decimal near a canonical number is read as that number (`nearest_eq`).
-/

namespace Darkroom.Decimal

open Float.Model (Format UnpackedFloat totalExponent)
open Float.Model.UnpackedFloat

/-! ## Products and quotients -/

section Operations

variable {m₁ m₂ m : Nat} {e₁ e₂ q : Int} {u : ℚ} (h₁ : 0 < m₁) (h₂ : 0 < m₂)
  (hc : Canonical m q) (hu : Near m q u)
include hu

/-- A product with enough bits is rounded to the number that it is near. -/
theorem mul_eq (hbits : 2 ^ 52 ≤ m₁ * m₂)
    (hval : (m₁ * 2 ^ e₁ : ℚ) * (m₂ * 2 ^ e₂) = u * 2 ^ q) :
    UnpackedFloat.mul .binary64 (.finite .positive m₁ e₁ h₁) (.finite .positive m₂ e₂ h₂)
      = .finite .positive m q hc.pos := by
  have hw : Locates (ExtendedMantissa.ofMantissaAndAccuracy (m₁ * m₂) .exact)
      ((m₁ * m₂ : Nat) : ℚ) := rfl
  refine roundWithAccuracy_eq hc hu hw ?_ ?_ .positive
  · rw [← hval, zpow_add₀ (by norm_num)]
    push_cast
    ring
  · have hmax : Format.binary64.targetExponent (totalExponent (m₁ * m₂) (e₁ + e₂))
        = max ((m₁ * m₂).log2 + 1 + (e₁ + e₂) - 53) (-1074) := rfl
    have hlog : 52 ≤ (m₁ * m₂).log2 := (Nat.le_log2 (by omega)).mpr hbits
    omega

end Operations

/-- A quotient and its remainder say where the exact quotient lies. -/
theorem locates_div (n : Nat) {d : Nat} (hd : 0 < d) :
    Locates (ExtendedMantissa.ofMantissaAndAccuracy (n / d) (accuracyOfFraction (n % d) d))
      ((n : ℚ) / d) := by
  have hdpos : (0 : ℚ) < d := by exact_mod_cast hd
  have hlt : ((n % d : Nat) : ℚ) / d < 1 := by
    rw [div_lt_one hdpos]
    exact_mod_cast Nat.mod_lt n hd
  have hsplit : (n : ℚ) / d = (n / d : Nat) + ((n % d : Nat) : ℚ) / d := by
    rw [div_eq_iff hdpos.ne', add_mul, div_mul_cancel₀ _ hdpos.ne']
    exact_mod_cast (Nat.div_add_mod' n d).symm
  rw [hsplit, accuracyOfFraction]
  by_cases hzero : n % d = 0
  · rw [if_pos hzero, hzero]
    simp [ExtendedMantissa.ofMantissaAndAccuracy, Locates]
  · have hpos : (0 : ℚ) < ((n % d : Nat) : ℚ) / d :=
      div_pos (by exact_mod_cast Nat.pos_of_ne_zero hzero) hdpos
    rw [if_neg hzero]
    rcases lt_trichotomy (2 * (n % d)) d with hcmp | hcmp | hcmp
    · have hhalf : ((n % d : Nat) : ℚ) / d < 1 / 2 := by
        rw [div_lt_div_iff₀ hdpos (by norm_num)]
        exact_mod_cast (by omega : n % d * 2 < 1 * d)
      rw [Nat.compare_eq_lt.mpr hcmp]
      show ((n / d : Nat) : ℚ) < _ ∧ _ < ((n / d : Nat) : ℚ) + 1 / 2
      exact ⟨by linarith, by linarith⟩
    · have hhalf : ((n % d : Nat) : ℚ) / d = 1 / 2 := by
        rw [div_eq_div_iff hdpos.ne' (by norm_num)]
        exact_mod_cast (by omega : n % d * 2 = 1 * d)
      rw [Nat.compare_eq_eq.mpr hcmp, hhalf]
      rfl
    · have hhalf : 1 / 2 < ((n % d : Nat) : ℚ) / d := by
        rw [div_lt_div_iff₀ (by norm_num) hdpos]
        exact_mod_cast (by omega : 1 * d < n % d * 2)
      rw [Nat.compare_eq_gt.mpr hcmp]
      show ((n / d : Nat) : ℚ) + 1 / 2 < _ ∧ _ < ((n / d : Nat) : ℚ) + 1
      exact ⟨by linarith, by linarith⟩

section Quotients

variable {m₁ m₂ m : Nat} {e₁ e₂ q : Int} {u : ℚ} (h₁ : 0 < m₁) (h₂ : 0 < m₂)

/-- The exponent of the quotient of two significands, small enough for 53 bits of quotient. A
division stops there, and what it leaves over is only looked at to see whether there is any. -/
def quotientExponent (m₁ : Nat) (e₁ : Int) (m₂ : Nat) (e₂ : Int) : Int :=
  min (e₁ - e₂)
    (Format.binary64.targetExponent (totalExponent m₁ e₁ - totalExponent m₂ e₂))

include h₁ h₂

theorem le_targetExponent_div {t : Int} (ht : t = quotientExponent m₁ e₁ m₂ e₂) :
    t ≤ Format.binary64.targetExponent
      (totalExponent (m₁ <<< (e₁ - e₂ - t).toNat / m₂) t) := by
  have hmin : quotientExponent m₁ e₁ m₂ e₂
      = min (e₁ - e₂) (max (m₁.log2 + 1 + e₁ - (m₂.log2 + 1 + e₂) - 53) (-1074)) := rfl
  rw [hmin] at ht
  have hmax : ∀ Q : Nat, Format.binary64.targetExponent (totalExponent Q t)
      = max (Q.log2 + 1 + t - 53) (-1074) := fun Q => rfl
  rw [hmax]
  rcases lt_or_ge (-1074) t with hlow | hlow
  · have hbits : 2 ^ 52 ≤ m₁ <<< (e₁ - e₂ - t).toNat / m₂ := by
      rw [Nat.le_div_iff_mul_le h₂, Nat.shiftLeft_eq]
      calc 2 ^ 52 * m₂ ≤ 2 ^ 52 * 2 ^ (m₂.log2 + 1) := by
            exact Nat.mul_le_mul_left _ Nat.lt_log2_self.le
        _ = 2 ^ (52 + (m₂.log2 + 1)) := by rw [← Nat.pow_add]
        _ ≤ 2 ^ (m₁.log2 + (e₁ - e₂ - t).toNat) := Nat.pow_le_pow_right (by decide) (by omega)
        _ = 2 ^ m₁.log2 * 2 ^ (e₁ - e₂ - t).toNat := Nat.pow_add ..
        _ ≤ m₁ * 2 ^ (e₁ - e₂ - t).toNat :=
            Nat.mul_le_mul_right _ (Nat.log2_self_le (by omega))
    have hlog := (Nat.le_log2 (by omega)).mpr hbits
    omega
  · omega

/-- A quotient is rounded to the number that it is near. -/
theorem div_eq (hc : Canonical m q) (hu : Near m q u)
    (hval : (m₁ * 2 ^ e₁ : ℚ) / (m₂ * 2 ^ e₂) = u * 2 ^ q) :
    UnpackedFloat.div .binary64 (.finite .positive m₁ e₁ h₁) (.finite .positive m₂ e₂ h₂)
      = .finite .positive m q hc.pos := by
  have hle : quotientExponent m₁ e₁ m₂ e₂ ≤ e₁ - e₂ := min_le_left _ _
  refine roundWithAccuracy_eq hc hu (locates_div _ h₂) ?_ (le_targetExponent_div h₁ h₂ rfl)
    .positive
  have hpow : (2 : ℚ) ^ (e₁ - e₂ - quotientExponent m₁ e₁ m₂ e₂).toNat
      * 2 ^ quotientExponent m₁ e₁ m₂ e₂ = 2 ^ e₁ / 2 ^ e₂ := by
    rw [← zpow_two_add, ← zpow_sub₀ (by norm_num)]
    congr 1
    omega
  have hm₂ : (0 : ℚ) < m₂ := by exact_mod_cast h₂
  have he₂ := zpow_two_pos e₂
  rw [← hval, Nat.shiftLeft_eq, Nat.cast_mul, Nat.cast_pow, Nat.cast_ofNat, div_mul_eq_mul_div,
    mul_assoc, hpow]
  field_simp

end Quotients

/-! ## Decimals -/

section Decimals

variable {D m : Nat} {E q : Int} {u : ℚ} (hD : 0 < D) (hc : Canonical m q) (hu : Near m q u)
  (hval : (D : ℚ) * 10 ^ E = u * 2 ^ q)
include hD hu hval

/-- The exact way of reading. -/
theorem ofScientific_exact (hlow : -(2048 + (D.log2 : Int)) ≤ E) (hhigh : E ≤ 2048) :
    UnpackedFloat.ofScientific .binary64 D E = .finite .positive m q hc.pos := by
  have hbits : ((2 : Int) ^ Format.binary64.exponentBits) = 2048 := rfl
  rw [UnpackedFloat.ofScientific, dif_neg hD.ne', hbits, if_neg (by omega), if_neg (by omega)]
  split
  · rename_i hE
    have hten : 0 < 10 ^ E.toNat := Nat.pow_pos (by decide)
    have hpow : (10 : ℚ) ^ E = 10 ^ E.toNat := by
      rw [← zpow_natCast, Int.toNat_of_nonneg hE]
    refine mul_eq _ hten hc hu ?_ ?_
    · have hshift : D <<< Format.binary64.mantissaBits = D * 2 ^ 53 := Nat.shiftLeft_eq D 53
      rw [hshift]
      calc 2 ^ 52 ≤ D * 2 ^ 53 := by omega
        _ ≤ D * 2 ^ 53 * 10 ^ E.toNat := Nat.le_mul_of_pos_right _ hten
    · have hshift : D <<< Format.binary64.mantissaBits = D * 2 ^ 53 := Nat.shiftLeft_eq D 53
      have hexp : -(Format.binary64.mantissaBits : Int) = -53 := rfl
      have hone : (2 : ℚ) ^ 53 * 2 ^ (-53 : Int) = 1 := by norm_num
      rw [hshift, hexp, ← hval, hpow, Nat.cast_mul, Nat.cast_pow, Nat.cast_pow, Nat.cast_ofNat,
        Nat.cast_ofNat, mul_assoc (D : ℚ), hone, mul_one, zpow_zero, mul_one]
  · rename_i hE
    have hten : 0 < 10 ^ (-E).toNat := Nat.pow_pos (by decide)
    have hpow : (10 : ℚ) ^ E = (10 ^ (-E).toNat)⁻¹ := by
      rw [← zpow_natCast, Int.toNat_of_nonneg (by omega), zpow_neg, inv_inv]
    refine div_eq hD hten hc hu ?_
    rw [← hval, hpow, zpow_zero, mul_one, mul_one, Nat.cast_pow, Nat.cast_ofNat, div_eq_mul_inv]

end Decimals

/-! ## Numbers that are doubles -/

section Naturals

variable {D : Nat} (hD : 0 < D) (hlt : D < 2 ^ 53)
include hD hlt

theorem log2_le : D.log2 ≤ 52 :=
  Nat.lt_succ_iff.mp ((Nat.log2_lt hD.ne').mpr hlt)

/-- A natural number of at most 53 bits, shifted until it has 53. -/
theorem full_shifted : 2 ^ 52 ≤ D * 2 ^ (52 - D.log2) ∧ D * 2 ^ (52 - D.log2) < 2 ^ 53 := by
  have hlog := log2_le hD hlt
  constructor
  · calc 2 ^ 52 = 2 ^ D.log2 * 2 ^ (52 - D.log2) := by rw [← Nat.pow_add]; congr 1; omega
      _ ≤ D * 2 ^ (52 - D.log2) := Nat.mul_le_mul_right _ (Nat.log2_self_le hD.ne')
  · calc D * 2 ^ (52 - D.log2) < 2 ^ (D.log2 + 1) * 2 ^ (52 - D.log2) :=
          Nat.mul_lt_mul_of_pos_right Nat.lt_log2_self (Nat.pow_pos (by decide))
      _ = 2 ^ 53 := by rw [← Nat.pow_add]; congr 1; omega

theorem canonical_shifted : Canonical (D * 2 ^ (52 - D.log2)) (D.log2 - 52) := by
  obtain ⟨hfull, hbits⟩ := full_shifted hD hlt
  have hlog := log2_le hD hlt
  exact ⟨by omega, hbits, by omega, by omega, Or.inl hfull⟩

theorem ofNat_eq : UnpackedFloat.ofNat .binary64 D
    = .finite .positive (D * 2 ^ (52 - D.log2)) (D.log2 - 52) (canonical_shifted hD hlt).pos := by
  have hc := canonical_shifted hD hlt
  have hlog := log2_le hD hlt
  have htarget : Format.binary64.targetExponent (totalExponent D 0) = (D.log2 : Int) - 52 := by
    have hmax : Format.binary64.targetExponent (totalExponent D 0)
        = max ((D.log2 : Int) + 1 + 0 - 53) (-1074) := rfl
    omega
  have hround : ofNat .binary64 D = UnpackedFloat.round .binary64 .positive D 0 := by
    have hgt : compare (D : Int) 0 = .gt := compare_gt_iff_gt.mpr (by omega)
    unfold ofNat ofInt UnpackedFloat.normalize
    rw [hgt]
    rfl
  have hshift : decreaseExponent D 0 ((D.log2 : Int) - 52)
      = (D * 2 ^ (52 - D.log2), (D.log2 : Int) - 52) := by
    have hamount : ((0 : Int) - ((D.log2 : Int) - 52)).toNat = 52 - D.log2 := by omega
    rw [decreaseExponent, hamount, Nat.shiftLeft_eq]
    exact Prod.ext rfl (by simp only; omega)
  have hexact : Locates (ExtendedMantissa.ofMantissaAndAccuracy (D * 2 ^ (52 - D.log2)) .exact)
    ((D * 2 ^ (52 - D.log2) : Nat) : ℚ) := rfl
  rw [hround, UnpackedFloat.round, htarget]
  simp only [hshift]
  exact roundWithAccuracy_eq hc (near_self _ _) hexact rfl (targetExponent_canonical hc).ge _

theorem value_shifted : ((D * 2 ^ (52 - D.log2) : Nat) : ℚ) * 2 ^ ((D.log2 : Int) - 52) = D := by
  have hlog := log2_le hD hlt
  have hexp : (D.log2 : Int) - 52 = -((52 - D.log2 : Nat) : Int) := by omega
  rw [hexp, zpow_neg, zpow_natCast, Nat.cast_mul, Nat.cast_pow, Nat.cast_ofNat,
    mul_inv_cancel_right₀ (by positivity)]

/-- A natural number of at most 53 bits is a double. -/
theorem toFloat_eq : ∃ (k : Nat) (e : Int) (hc : Canonical k e),
    D.toUInt64.toFloat = ofCanonical .positive hc ∧ 2 ^ 52 ≤ k ∧ (k * 2 ^ e : ℚ) = D := by
  have hsize : D.toUInt64.toNat = D := UInt64.toNat_ofNat_of_lt' (by
    have hmax : UInt64.size = 2 ^ 64 := rfl
    omega)
  have hmodel : D.toUInt64.toFloat = .ofModel (.pack (ofNat .binary64 D.toUInt64.toNat)) := rfl
  refine ⟨_, _, canonical_shifted hD hlt, ?_, (full_shifted hD hlt).1, value_shifted hD hlt⟩
  rw [hmodel, hsize, ofNat_eq hD hlt, ofCanonical]

end Naturals

/-- A double is a given number above zero and has a full significand. It is a test that can be run,
and the powers of ten in the table of the library all pass it. -/
def isNumber (x : Float) (n : Nat) : Bool :=
  match FloatKind.ofFloat x with
  | .finite false b => decide (2 ^ 52 ≤ b.m) && b.m * 2 ^ b.q.toNat == n * 2 ^ (-b.q).toNat
  | _ => false

theorem eq_of_isNumber {x : Float} {n : Nat} (h : isNumber x n = true) :
    ∃ (k : Nat) (e : Int) (hc : Canonical k e), x = ofCanonical .positive hc
      ∧ 2 ^ 52 ≤ k ∧ (k * 2 ^ e : ℚ) = n := by
  unfold isNumber at h
  split at h
  · rename_i b hb
    rw [Bool.and_eq_true, decide_eq_true_eq, beq_iff_eq] at h
    obtain ⟨hc, hx, -⟩ := canonical_of_finite hb (by omega)
    refine ⟨b.m, b.q, hc, hx, h.1, ?_⟩
    rw [zpow_eq_div (by norm_num), ← mul_div_assoc, div_eq_iff (by positivity)]
    exact_mod_cast h.2
  · cases h

theorem isNumber_powersOfTen : ∀ e : Fin Float.exactlyRepresentablePowersOfTen.size,
    isNumber Float.exactlyRepresentablePowersOfTen[e] (10 ^ e.val) = true := by
  decide

theorem powerOfTen_eq {e : Nat} (h : e < Float.exactlyRepresentablePowersOfTen.size) :
    ∃ (k : Nat) (q : Int) (hc : Canonical k q),
      Float.exactlyRepresentablePowersOfTen[e] = ofCanonical .positive hc
        ∧ 2 ^ 52 ≤ k ∧ (k * 2 ^ q : ℚ) = 10 ^ e := by
  obtain ⟨k, q, hc, hx, hfull, hval⟩ := eq_of_isNumber (isNumber_powersOfTen ⟨e, h⟩)
  exact ⟨k, q, hc, hx, hfull, by rw [hval, Nat.cast_pow, Nat.cast_ofNat]⟩

/-! ## Reading -/

theorem ofCanonical_mul {k₁ k₂ : Nat} {e₁ e₂ : Int} (h₁ : Canonical k₁ e₁) (h₂ : Canonical k₂ e₂) :
    ofCanonical .positive h₁ * ofCanonical .positive h₂
      = .ofModel (.pack (UnpackedFloat.mul .binary64 (.finite .positive k₁ e₁ h₁.pos)
          (.finite .positive k₂ e₂ h₂.pos))) := by
  have hmul : ofCanonical .positive h₁ * ofCanonical .positive h₂
      = .ofModel (.pack (UnpackedFloat.mul .binary64
          (Float.Model.pack (.finite .positive k₁ e₁ h₁.pos)).unpack
          (Float.Model.pack (.finite .positive k₂ e₂ h₂.pos)).unpack)) := rfl
  rw [hmul, unpack_pack h₁, unpack_pack h₂]

theorem ofCanonical_div {k₁ k₂ : Nat} {e₁ e₂ : Int} (h₁ : Canonical k₁ e₁) (h₂ : Canonical k₂ e₂) :
    ofCanonical .positive h₁ / ofCanonical .positive h₂
      = .ofModel (.pack (UnpackedFloat.div .binary64 (.finite .positive k₁ e₁ h₁.pos)
          (.finite .positive k₂ e₂ h₂.pos))) := by
  have hdiv : ofCanonical .positive h₁ / ofCanonical .positive h₂
      = .ofModel (.pack (UnpackedFloat.div .binary64
          (Float.Model.pack (.finite .positive k₁ e₁ h₁.pos)).unpack
          (Float.Model.pack (.finite .positive k₂ e₂ h₂.pos)).unpack)) := rfl
  rw [hdiv, unpack_pack h₁, unpack_pack h₂]

section Reading

variable {D m : Nat} {E q : Int} {u : ℚ} (hD : 0 < D) (hc : Canonical m q) (hu : Near m q u)
  (hval : (D : ℚ) * 10 ^ E = u * 2 ^ q)
include hD hu hval

/-- The fast way of reading a small number: one multiplication or division by a power of ten. -/
theorem fast_eq (hlt : D < 2 ^ 53) (hE : E.natAbs < Float.exactlyRepresentablePowersOfTen.size) :
    (if decide (E < 0) = true then
        D.toUInt64.toFloat / Float.exactlyRepresentablePowersOfTen[E.natAbs]
      else D.toUInt64.toFloat * Float.exactlyRepresentablePowersOfTen[E.natAbs])
      = ofCanonical .positive hc := by
  obtain ⟨k₁, e₁, h₁, hfloat, hfull₁, hval₁⟩ := toFloat_eq hD hlt
  obtain ⟨k₂, e₂, h₂, hpower, -, hval₂⟩ := powerOfTen_eq hE
  rw [hfloat, hpower]
  split
  · rename_i hneg
    have hten : (10 : ℚ) ^ E = (10 ^ E.natAbs)⁻¹ := by
      rw [← zpow_natCast, ← zpow_neg]
      have hneg := of_decide_eq_true hneg
      congr 1
      omega
    have hquotient : (k₁ * 2 ^ e₁ : ℚ) / (k₂ * 2 ^ e₂) = u * 2 ^ q := by
      rw [hval₁, hval₂, ← hval, hten, div_eq_mul_inv]
    rw [ofCanonical_div, div_eq h₁.pos h₂.pos hc hu hquotient, ofCanonical]
  · rename_i hneg
    have hten : (10 : ℚ) ^ E = 10 ^ E.natAbs := by
      rw [← zpow_natCast]
      have hneg : ¬E < 0 := fun h => hneg (decide_eq_true h)
      congr 1
      omega
    have hproduct : (k₁ * 2 ^ e₁ : ℚ) * (k₂ * 2 ^ e₂) = u * 2 ^ q := by
      rw [hval₁, hval₂, ← hval, hten]
    have hbits : 2 ^ 52 ≤ k₁ * k₂ := le_trans hfull₁ (Nat.le_mul_of_pos_right k₁ h₂.pos)
    rw [ofCanonical_mul, mul_eq h₁.pos h₂.pos hc hu hbits hproduct, ofCanonical]

omit hD hu hval in
theorem signed_natAbs :
    (if decide (E < 0) = true then Int.negOfNat E.natAbs else Int.ofNat E.natAbs) = E := by
  split
  · rename_i hneg
    have hneg := of_decide_eq_true hneg
    rw [Int.negOfNat_eq, Int.ofNat_eq_natCast]
    omega
  · rename_i hneg
    have hneg : ¬E < 0 := fun h => hneg (decide_eq_true h)
    rw [Int.ofNat_eq_natCast]
    omega

theorem ofScientific_eq (hlow : -(2048 + (D.log2 : Int)) ≤ E) (hhigh : E ≤ 2048) :
    Float.ofScientific D (decide (E < 0)) E.natAbs = ofCanonical .positive hc := by
  rw [Float.ofScientific]
  split
  · rename_i hfast
    exact fast_eq hD hc hu hval hfast.1 (Nat.lt_succ_of_le hfast.2)
  · simp only [signed_natAbs]
    rw [Float.Model.ofScientific, ofScientific_exact hD hc hu hval hlow hhigh, ofCanonical]

end Reading

/-! ## Range -/

/-- A number with `n` digits lies between two powers of ten. -/
theorem natDigits_range {D : Nat} (hD : 0 < D) :
    10 ^ ((Text.Integer.natDigits D).length - 1) ≤ D ∧ D < 10 ^ (Text.Integer.natDigits D).length := by
  have hpos : 0 < (Text.Integer.natDigits D).length := Nat.length_toDigits_pos
  refine ⟨?_, (Nat.length_toDigits_le_iff (by decide) hpos).mp (Nat.le_refl _)⟩
  by_contra hlt
  by_cases hone : (Text.Integer.natDigits D).length - 1 = 0
  · rw [hone, Nat.pow_zero] at hlt
    omega
  · have hle : (Text.Integer.natDigits D).length ≤ (Text.Integer.natDigits D).length - 1 :=
      (Nat.length_toDigits_le_iff (by decide) (by omega)).mpr (by omega)
    omega

theorem natDigits_length_le {D : Nat} (hD : 0 < D) :
    (Text.Integer.natDigits D).length ≤ D.log2 + 1 := by
  have hlt : 2 ^ ((Text.Integer.natDigits D).length - 1) < 2 ^ (D.log2 + 1) :=
    calc 2 ^ ((Text.Integer.natDigits D).length - 1)
        ≤ 10 ^ ((Text.Integer.natDigits D).length - 1) := Nat.pow_le_pow_left (by decide) _
      _ ≤ D := (natDigits_range hD).1
      _ < 2 ^ (D.log2 + 1) := Nat.lt_log2_self
  have hexp := (Nat.pow_lt_pow_iff_right (by decide)).mp hlt
  omega

theorem two_pow_lt_ten_pow : (2 : ℚ) ^ 1080 < 10 ^ 400 := by
  have hroot : (2 : ℚ) ^ 135 < 10 ^ 50 := by norm_num
  calc (2 : ℚ) ^ 1080 = (2 ^ 135) ^ 8 := by rw [← pow_mul]
    _ < (10 ^ 50) ^ 8 := pow_lt_pow_left₀ hroot (by positivity) (by decide)
    _ = 10 ^ 400 := by rw [← pow_mul]

section Range

variable {D m : Nat} {E q : Int} {u : ℚ} (hD : 0 < D) (hc : Canonical m q) (hu : Near m q u)
include hc hu

theorem value_lt : u * 2 ^ q < 10 ^ (400 : Int) := by
  have hm : (m : ℚ) + 1 ≤ 2 ^ 53 := by exact_mod_cast hc.lt
  have hexp : (2 : ℚ) ^ q ≤ 2 ^ (971 : Int) := zpow_le_zpow_right₀ (by norm_num) hc.high
  have hpos := zpow_two_pos q
  calc u * 2 ^ q ≤ 2 ^ 53 * 2 ^ (971 : Int) :=
        mul_le_mul (by linarith [hu.le]) hexp hpos.le (by positivity)
    _ = 2 ^ 1024 := by rw [← zpow_two_add]; rfl
    _ ≤ 2 ^ 1080 := pow_le_pow_right₀ (by norm_num) (by decide)
    _ < 10 ^ 400 := two_pow_lt_ten_pow
    _ = 10 ^ (400 : Int) := (zpow_natCast 10 400).symm

theorem lt_value : (10 : ℚ) ^ (-401 : Int) < u * 2 ^ q := by
  have hm : (1 : ℚ) ≤ m := by exact_mod_cast hc.pos
  have hreach := reachBelow_le m q
  have hexp : (2 : ℚ) ^ (-1074 : Int) ≤ 2 ^ q := zpow_le_zpow_right₀ (by norm_num) hc.low
  have hpos := zpow_two_pos (-1074)
  calc (10 : ℚ) ^ (-401 : Int) ≤ 10 ^ (-400 : Int) := zpow_le_zpow_right₀ (by norm_num) (by decide)
    _ = (10 ^ 400)⁻¹ := by rw [zpow_neg]; rfl
    _ < (2 ^ 1080)⁻¹ := inv_strictAnti₀ (by positivity) two_pow_lt_ten_pow
    _ = 2 ^ (-1080 : Int) := by rw [zpow_neg]; rfl
    _ ≤ 2 ^ (-1075 : Int) := zpow_le_zpow_right₀ (by norm_num) (by decide)
    _ = 1 / 2 * 2 ^ (-1074 : Int) := by
        have hsum : (-1075 : Int) = -1 + -1074 := by decide
        rw [hsum, zpow_add₀ (by norm_num), zpow_neg_one, one_div]
    _ ≤ u * 2 ^ q := mul_le_mul (by linarith [hu.ge]) hexp hpos.le (by linarith [hu.ge])

variable (hval : (D : ℚ) * 10 ^ E = u * 2 ^ q)
include hD hval

/-- The powers of ten that are not computed do not occur near a double. -/
theorem size_range : E + ((Text.Integer.natDigits D).length : Int) ≤ 400
    ∧ -400 ≤ E + ((Text.Integer.natDigits D).length : Int) := by
  obtain ⟨hlow, hhigh⟩ := natDigits_range hD
  have hpos : 0 < (Text.Integer.natDigits D).length := Nat.length_toDigits_pos
  have hten : (0 : ℚ) < 10 ^ E := zpow_pos (by norm_num) E
  constructor
  · by_contra hlarge
    have hlow : ((10 : ℚ) ^ ((Text.Integer.natDigits D).length - 1)) ≤ D := by exact_mod_cast hlow
    have hge : (10 : ℚ) ^ (400 : Int) ≤ D * 10 ^ E :=
      calc (10 : ℚ) ^ (400 : Int)
          ≤ 10 ^ ((((Text.Integer.natDigits D).length - 1 : Nat) : Int) + E) :=
            zpow_le_zpow_right₀ (by norm_num) (by omega)
        _ = 10 ^ ((Text.Integer.natDigits D).length - 1) * 10 ^ E := by
            rw [zpow_add₀ (by norm_num), zpow_natCast]
        _ ≤ D * 10 ^ E := mul_le_mul_of_nonneg_right hlow hten.le
    have hlt := value_lt hc hu
    linarith
  · by_contra hsmall
    have hhigh : (D : ℚ) < 10 ^ (Text.Integer.natDigits D).length := by exact_mod_cast hhigh
    have hle : (D : ℚ) * 10 ^ E ≤ 10 ^ (-401 : Int) :=
      calc (D : ℚ) * 10 ^ E ≤ 10 ^ (Text.Integer.natDigits D).length * 10 ^ E :=
            mul_le_mul_of_nonneg_right hhigh.le hten.le
        _ = 10 ^ (((Text.Integer.natDigits D).length : Int) + E) := by
            rw [zpow_add₀ (by norm_num), zpow_natCast]
        _ ≤ 10 ^ (-401 : Int) := zpow_le_zpow_right₀ (by norm_num) (by omega)
    have hlt := lt_value hc hu
    linarith

/-- A decimal near a canonical number is read as that number. -/
theorem nearest_eq : nearest D E = ofCanonical .positive hc := by
  obtain ⟨hhigh, hlow⟩ := size_range hD hc hu hval
  have hpos : 0 < (Text.Integer.natDigits D).length := Nat.length_toDigits_pos
  have hlog := natDigits_length_le hD
  rw [nearest, if_neg hD.ne', if_neg (by omega), if_neg (by omega)]
  exact ofScientific_eq hD hc hu hval (by omega) (by omega)

end Range

end Darkroom.Decimal
