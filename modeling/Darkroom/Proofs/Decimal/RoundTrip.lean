import Darkroom.Action.Log
import Darkroom.Proofs.Decimal.Nearest
import Darkroom.Proofs.Decimal.Shortest
import Darkroom.Proofs.Text.Integer

/-!
# Doubles read back

The layout of the digits does not change the number that they stand for: with or without an exponent,
a text is read as the double nearest to the digits that were laid out (`readMagnitude?_magnitude`).
These are near the double that they are the text of, so every double is read back from its text
(`readFloat_writeDouble`).
-/

namespace Darkroom.Decimal

open Text.Integer (digit?_of_isDigit isDigit_of_mem_natDigits natDigits_ne_nil)

/-! ## Digits -/

theorem digit?_of_not_isDigit {c : Char} (h : ¬c.isDigit) : Text.Integer.digit? c = none := by
  simp only [Char.isDigit, Bool.and_eq_true, decide_eq_true_eq] at h
  exact if_neg h

/-- Digits are taken up to the first character that is none. -/
theorem spanDigits_append : ∀ {cs rest : List Char}, (∀ c ∈ cs, c.isDigit) →
    (∀ c ∈ rest.head?, ¬c.isDigit) →
    spanDigits (cs ++ rest) = (cs.map fun c => c.toNat - 48, rest)
  | [], [], _, _ => rfl
  | [], c :: rest, _, hrest => by
      have hc := digit?_of_not_isDigit (hrest c rfl)
      rw [List.nil_append, spanDigits, hc]
      rfl
  | c :: cs, rest, hcs, hrest => by
      have hc := digit?_of_isDigit (hcs c List.mem_cons_self)
      have htail : ∀ d ∈ cs, d.isDigit := fun d hd => hcs d (List.mem_cons_of_mem c hd)
      rw [List.cons_append, spanDigits, hc]
      simp only [spanDigits_append htail hrest]
      rfl

theorem spanDigits_all {cs : List Char} (h : ∀ c ∈ cs, c.isDigit) :
    spanDigits cs = (cs.map fun c => c.toNat - 48, []) := by
  have hspan : spanDigits (cs ++ []) = (cs.map fun c => c.toNat - 48, []) :=
    spanDigits_append h (by simp)
  rwa [List.append_nil] at hspan

theorem ofDigits_map (cs : List Char) :
    ofDigits (cs.map fun c => c.toNat - 48) = Nat.ofDigitChars 10 cs 0 := by
  have hstep : (fun (value : Nat) (c : Char) => value * 10 + (c.toNat - 48))
      = fun value c => 10 * value + (c.toNat - '0'.toNat) := by
    funext value c
    rw [Nat.mul_comm]
    rfl
  rw [ofDigits, List.foldl_map, hstep, Nat.ofDigitChars_eq_foldl]

/-! ## Exponents -/

/-- Digits alone are a positive exponent. -/
theorem readExponent?_digits : ∀ {cs : List Char}, cs ≠ [] → (∀ c ∈ cs, c.isDigit) →
    readExponent? cs = some (Nat.ofDigitChars 10 cs 0 : Int)
  | c :: cs, _, hcs => by
      have hc : c.isDigit := hcs c List.mem_cons_self
      have hspan := spanDigits_all hcs
      rw [← ofDigits_map]
      unfold readExponent?
      split
      rename_i negative rest hsign
      split at hsign
      · rename_i rest heq
        exact absurd ((List.cons.inj heq).1 ▸ hc) Text.Integer.not_isDigit_plus
      · rename_i rest heq
        exact absurd ((List.cons.inj heq).1 ▸ hc) Text.Integer.not_isDigit_minus
      · cases hsign
        rw [hspan]
        rfl

theorem readExponent?_plus : ∀ {cs : List Char}, cs ≠ [] → (∀ c ∈ cs, c.isDigit) →
    readExponent? ('+' :: cs) = some (Nat.ofDigitChars 10 cs 0 : Int)
  | c :: cs, _, hcs => by
      rw [← ofDigits_map, readExponent?]
      simp only [spanDigits_all hcs]
      rfl

theorem readExponent?_minus : ∀ {cs : List Char}, cs ≠ [] → (∀ c ∈ cs, c.isDigit) →
    readExponent? ('-' :: cs) = some (-(Nat.ofDigitChars 10 cs 0 : Int))
  | c :: cs, _, hcs => by
      rw [← ofDigits_map, readExponent?]
      simp only [spanDigits_all hcs]
      rfl

/-- A written exponent is read back, with a plus sign or without one. -/
theorem readExponent?_write (plus : Bool) (lead : Int) :
    readExponent? ((if plus ∧ 0 ≤ lead then ['+'] else []) ++ Text.Integer.write lead)
      = some lead := by
  have hvalue : Nat.ofDigitChars 10 (Text.Integer.natDigits lead.natAbs) 0 = lead.natAbs :=
    Nat.ofDigitChars_ten_toDigits
  have hdigits : ∀ c ∈ Text.Integer.natDigits lead.natAbs, c.isDigit :=
    fun c => isDigit_of_mem_natDigits
  have hne := natDigits_ne_nil lead.natAbs
  by_cases hneg : lead < 0
  · rw [if_neg (by omega), Text.Integer.write, if_pos hneg, List.nil_append,
      readExponent?_minus hne hdigits, hvalue]
    exact congrArg some (by omega)
  · have habs : (lead.natAbs : Int) = lead := by omega
    rw [Text.Integer.write, if_neg hneg]
    split
    · rw [List.singleton_append, readExponent?_plus hne hdigits, hvalue, habs]
    · rw [List.nil_append, readExponent?_digits hne hdigits, hvalue, habs]

/-! ## Magnitudes -/

section Magnitudes

variable {whole fraction : List Char} (hwhole : ∀ c ∈ whole, c.isDigit) (hne : whole ≠ [])
include hwhole hne

theorem readMagnitude?_point (hfraction : ∀ c ∈ fraction, c.isDigit) :
    readMagnitude? (whole ++ '.' :: fraction)
      = some (nearest (Nat.ofDigitChars 10 (whole ++ fraction) 0) (-(fraction.length : Int))) := by
  have hspan : spanDigits (whole ++ '.' :: fraction)
      = (whole.map fun c => c.toNat - 48, '.' :: fraction) :=
    spanDigits_append hwhole (by simp)
  rw [readMagnitude?, hspan]
  simp only [spanDigits_all hfraction]
  rw [if_neg (by simp [hne]), ← List.map_append, ofDigits_map, List.length_map, Int.zero_sub]

theorem readMagnitude?_pointExponent (hfraction : ∀ c ∈ fraction, c.isDigit) {tail : List Char}
    {e : Int} (he : readExponent? tail = some e) :
    readMagnitude? (whole ++ '.' :: (fraction ++ 'e' :: tail))
      = some (nearest (Nat.ofDigitChars 10 (whole ++ fraction) 0) (e - fraction.length)) := by
  have hspan : spanDigits (whole ++ '.' :: (fraction ++ 'e' :: tail))
      = (whole.map fun c => c.toNat - 48, '.' :: (fraction ++ 'e' :: tail)) :=
    spanDigits_append hwhole (by simp)
  have hspan' : spanDigits (fraction ++ 'e' :: tail)
      = (fraction.map fun c => c.toNat - 48, 'e' :: tail) :=
    spanDigits_append hfraction (by simp)
  rw [readMagnitude?, hspan]
  simp only [hspan', he]
  rw [if_neg (by simp [hne]), ← List.map_append, ofDigits_map, List.length_map]
  rfl

theorem readMagnitude?_exponent {tail : List Char} {e : Int} (he : readExponent? tail = some e) :
    readMagnitude? (whole ++ 'e' :: tail)
      = some (nearest (Nat.ofDigitChars 10 whole 0) e) := by
  have hspan : spanDigits (whole ++ 'e' :: tail)
      = (whole.map fun c => c.toNat - 48, 'e' :: tail) :=
    spanDigits_append hwhole (by simp)
  rw [readMagnitude?, hspan]
  simp only
  rw [if_neg (by simp [hne])]
  show (readExponent? tail).map (fun e => nearest
    (ofDigits (whole.map (fun c => c.toNat - 48) ++ [])) (e - (0 : Nat))) = _
  rw [he, List.append_nil, ofDigits_map, Option.map_some, Int.natCast_zero, Int.sub_zero]

end Magnitudes

/-- What is laid out is a decimal of the same value, without a sign, that starts with a digit. Each
layout of digits and exponent has to show this much, and the rest of reading does not look at the
layout again. -/
structure Reads (text : List Char) (value : ℚ) : Prop where
  digit : ∃ c cs, text = c :: cs ∧ c.isDigit
  read : ∃ (D : Nat) (E : Int), readMagnitude? text = some (nearest D E) ∧ (D : ℚ) * 10 ^ E = value

theorem isDigit_of_mem_replicate {k : Nat} {c : Char} (h : c ∈ List.replicate k '0') :
    c.isDigit := by
  rw [List.eq_of_mem_replicate h]
  rfl

section Layout

variable {digits : List Char} {n : Nat} {exp : Int} (hdigits : ∀ c ∈ digits, c.isDigit)
  (hvalue : Nat.ofDigitChars 10 digits 0 = n)

include hdigits in
theorem exists_digit (hne : digits ≠ []) (tail : List Char) :
    ∃ c cs, digits ++ tail = c :: cs ∧ c.isDigit := by
  obtain ⟨c, cs, rfl⟩ := List.exists_cons_of_ne_nil hne
  exact ⟨c, cs ++ tail, rfl, hdigits c List.mem_cons_self⟩

include hdigits hvalue

/-- Zeros up to the point. -/
theorem reads_whole (hne : digits ≠ []) (hexp : 0 ≤ exp) :
    Reads (digits ++ List.replicate exp.toNat '0' ++ ['.', '0']) (n * 10 ^ exp) := by
  have hwhole : ∀ c ∈ digits ++ List.replicate exp.toNat '0', c.isDigit := by
    intro c hc
    exact (List.mem_append.mp hc).elim (hdigits c) isDigit_of_mem_replicate
  refine ⟨?_, _, _, readMagnitude?_point hwhole (by simp [hne]) (by simp), ?_⟩
  · rw [List.append_assoc]
    exact exists_digit hdigits hne _
  · have hlast : Nat.ofDigitChars 10 ['0'] (10 ^ exp.toNat * n) = 10 ^ exp.toNat * n * 10 := by
      rw [Nat.ofDigitChars_cons, Nat.ofDigitChars_nil, Nat.mul_comm]
      rfl
    have hpow : (10 : ℚ) ^ exp = 10 ^ exp.toNat := by
      rw [← zpow_natCast, Int.toNat_of_nonneg hexp]
    rw [Nat.ofDigitChars_append, Nat.ofDigitChars_append, hvalue,
      Nat.ofDigitChars_replicate_zero, hlast, hpow]
    push_cast
    norm_num
    ring

/-- The point among the digits. -/
theorem reads_inside (hexp : exp < 0) (hplaces : exp.natAbs < digits.length) :
    Reads (digits.take (digits.length - exp.natAbs)
      ++ '.' :: digits.drop (digits.length - exp.natAbs)) (n * 10 ^ exp) := by
  have htake : digits.take (digits.length - exp.natAbs) ≠ [] := by
    rw [← List.length_pos_iff, List.length_take]
    omega
  have hwhole : ∀ c ∈ digits.take (digits.length - exp.natAbs), c.isDigit := fun c hc =>
    hdigits c (List.mem_of_mem_take hc)
  have hfraction : ∀ c ∈ digits.drop (digits.length - exp.natAbs), c.isDigit := fun c hc =>
    hdigits c (List.mem_of_mem_drop hc)
  refine ⟨exists_digit hwhole htake _, _, _, readMagnitude?_point hwhole htake hfraction, ?_⟩
  rw [List.take_append_drop, hvalue, List.length_drop]
  congr 2
  omega

/-- Zeros behind the point. -/
theorem reads_behind (hexp : exp < 0) (hplaces : digits.length ≤ exp.natAbs) :
    Reads (['0', '.'] ++ List.replicate (exp.natAbs - digits.length) '0' ++ digits)
      (n * 10 ^ exp) := by
  have hfraction : ∀ c ∈ List.replicate (exp.natAbs - digits.length) '0' ++ digits,
      c.isDigit := by
    intro c hc
    exact (List.mem_append.mp hc).elim isDigit_of_mem_replicate (hdigits c)
  have hshape : ['0', '.'] ++ List.replicate (exp.natAbs - digits.length) '0' ++ digits
      = ['0'] ++ '.' :: (List.replicate (exp.natAbs - digits.length) '0' ++ digits) := rfl
  have hzero : Nat.ofDigitChars 10 ['0'] 0 = 0 := rfl
  rw [hshape]
  refine ⟨⟨'0', _, rfl, rfl⟩, _, _, readMagnitude?_point (by simp) (by simp) hfraction, ?_⟩
  rw [Nat.ofDigitChars_append, Nat.ofDigitChars_append, hzero, Nat.ofDigitChars_replicate_zero,
    Nat.mul_zero, hvalue, List.length_append, List.length_replicate]
  congr 2
  omega

theorem reads_positional (hne : digits ≠ []) :
    Reads (Format.positional digits exp) (n * 10 ^ exp) := by
  rw [Format.positional]
  split
  · rename_i hexp
    exact reads_whole hdigits hvalue hne hexp
  · rename_i hexp
    simp only
    split
    · rename_i hplaces
      exact reads_inside hdigits hvalue (not_le.mp hexp) hplaces
    · rename_i hplaces
      exact reads_behind hdigits hvalue (not_le.mp hexp) (not_lt.mp hplaces)

theorem reads_scientific (format : Format) (hne : digits ≠ []) :
    Reads (format.scientific digits (exp + digits.length - 1)) (n * 10 ^ exp) := by
  have htail := readExponent?_write format.plusExponent (exp + digits.length - 1)
  obtain ⟨d, rest, rfl⟩ := List.exists_cons_of_ne_nil hne
  have hd := hdigits d List.mem_cons_self
  cases rest with
  | nil =>
      refine ⟨⟨d, _, rfl, hd⟩, _, _, readMagnitude?_exponent hdigits hne htail, ?_⟩
      rw [hvalue, List.length_singleton]
      congr 2
      omega
  | cons r rest =>
      have hrest : ∀ c ∈ r :: rest, c.isDigit := fun c hc => hdigits c (List.mem_cons_of_mem d hc)
      have hshape : format.scientific (d :: r :: rest) (exp + (d :: r :: rest).length - 1)
          = [d] ++ '.' :: ((r :: rest) ++ 'e' ::
            ((if format.plusExponent ∧ 0 ≤ exp + (d :: r :: rest).length - 1 then ['+'] else [])
              ++ Text.Integer.write (exp + (d :: r :: rest).length - 1))) := by
        rw [Format.scientific]
        simp only [List.append_assoc, List.cons_append, List.nil_append]
      rw [hshape]
      refine ⟨⟨d, _, rfl, hd⟩, _, _,
        readMagnitude?_pointExponent (by simpa using hd) (by simp) hrest htail, ?_⟩
      rw [List.singleton_append, hvalue, List.length_cons, List.length_cons]
      congr 2
      push_cast
      omega

end Layout

/-- The text of a magnitude stands for its shortest digits. -/
theorem reads_magnitude (format : Format) (x : Binary) :
    Reads (format.magnitude x) (x.shortest format.tie).value := by
  have hdigits : ∀ c ∈ Text.Integer.natDigits (x.shortest format.tie).digits, c.isDigit := fun _ =>
    isDigit_of_mem_natDigits
  rw [Format.magnitude]
  split
  · exact reads_positional hdigits Nat.ofDigitChars_ten_toDigits (natDigits_ne_nil _)
  · exact reads_scientific hdigits Nat.ofDigitChars_ten_toDigits format (natDigits_ne_nil _)

theorem readFloat_magnitude {text : List Char} {value : ℚ} (h : Reads text value) :
    ∃ (D : Nat) (E : Int), (D : ℚ) * 10 ^ E = value ∧ readFloat text = .ok (nearest D E)
      ∧ readFloat ('-' :: text) = .ok (nearest D E).neg := by
  obtain ⟨⟨c, cs, rfl, hc⟩, D, E, hread, hvalue⟩ := h
  refine ⟨D, E, hvalue, ?_, ?_⟩
  · unfold readFloat
    split
    · rename_i heq
      cases heq
    · rename_i rest heq
      exact absurd ((List.cons.inj heq).1 ▸ hc) Text.Integer.not_isDigit_plus
    · rename_i rest heq
      exact absurd ((List.cons.inj heq).1 ▸ hc) Text.Integer.not_isDigit_minus
    · simp only [hread]
      rfl
  · unfold readFloat
    simp only [hread]
    rfl

/-! ## Doubles -/

theorem eq_zero_of_signOf (negative : Bool) :
    Float.ofModel (.pack (.zero (signOf negative)))
      = if negative then (0.0 : Float).neg else 0.0 := by
  cases negative with
  | false => rfl
  | true => rfl

theorem eq_infinity_of_signOf (negative : Bool) :
    Float.ofModel (.pack (.infinity (signOf negative)))
      = if negative then (1.0 / 0.0 : Float).neg else 1.0 / 0.0 := by
  cases negative with
  | false => rfl
  | true => rfl

theorem eq_quotient_of_zeros : Float.ofModel (.pack .notANumber) = 0.0 / 0.0 :=
  rfl

theorem readFloat_nan : readFloat "NaN".toList = .ok (0.0 / 0.0) := by
  rfl

theorem readFloat_inf : readFloat "inf".toList = .ok (1.0 / 0.0) := by
  rfl

theorem readFloat_minusInf : readFloat "-inf".toList = .ok (1.0 / 0.0 : Float).neg := by
  rfl

theorem nearest_of_zero {x : Float} {negative : Bool} {magnitude : Binary} {D : Nat} {E : Int}
    (hx : FloatKind.ofFloat x = .finite negative magnitude) (hm : magnitude.m = 0)
    (hvalue : (D : ℚ) * 10 ^ E = (magnitude.shortest ParamValue.doubleFormat.tie).value) :
    x = if negative then (nearest D E).neg else nearest D E := by
  have hzero : (magnitude.shortest ParamValue.doubleFormat.tie).value = 0 := by
    rw [Binary.shortest, if_pos hm, Scaled.value, Nat.cast_zero, zero_mul]
  have hten : (10 : ℚ) ^ E ≠ 0 := zpow_ne_zero E (by norm_num)
  have hD : D = 0 := by
    rw [hzero] at hvalue
    exact_mod_cast (mul_eq_zero.mp hvalue).resolve_right hten
  rw [zero_of_finite hx hm, eq_zero_of_signOf, hD]
  rfl

theorem nearest_of_canonical {x : Float} {negative : Bool} {magnitude : Binary} {D : Nat} {E : Int}
    (hx : FloatKind.ofFloat x = .finite negative magnitude) (hm : magnitude.m ≠ 0)
    (hvalue : (D : ℚ) * 10 ^ E = (magnitude.shortest ParamValue.doubleFormat.tie).value) :
    x = if negative then (nearest D E).neg else nearest D E := by
  obtain ⟨hc, hcanonical, hnarrow⟩ := canonical_of_finite hx hm
  have hnear := near_shortest hc hnarrow ParamValue.doubleFormat.tie
  rw [← hvalue] at hnear
  have hD : 0 < D := by
    rw [Nat.pos_iff_ne_zero]
    rintro rfl
    have hpos := hnear.pos hc.pos
    rw [Nat.cast_zero, zero_mul, zero_div] at hpos
    exact hpos.false
  have hval : (D : ℚ) * 10 ^ E = D * 10 ^ E / 2 ^ magnitude.q * 2 ^ magnitude.q := by
    rw [div_mul_cancel₀ _ (zpow_two_pos _).ne']
  rw [nearest_eq hD hc hnear hval, neg_ofCanonical, hcanonical]
  cases negative <;> rfl

/-- Every double is read back from its text. -/
theorem readFloat_writeDouble (x : Float) : readFloat (ParamValue.writeDouble x) = .ok x := by
  rw [ParamValue.writeDouble]
  cases hx : FloatKind.ofFloat x with
  | nan =>
      rw [eq_nan hx, eq_quotient_of_zeros]
      exact readFloat_nan
  | infinite negative =>
      rw [eq_infinite hx, eq_infinity_of_signOf]
      cases negative with
      | false => exact readFloat_inf
      | true => exact readFloat_minusInf
  | finite negative magnitude =>
      obtain ⟨D, E, hvalue, hpositive, hnegative⟩ :=
        readFloat_magnitude (reads_magnitude ParamValue.doubleFormat magnitude)
      have hread : readFloat ((if negative then ['-'] else [])
          ++ ParamValue.doubleFormat.magnitude magnitude)
            = .ok (if negative then (nearest D E).neg else nearest D E) := by
        cases negative with
        | false => exact hpositive
        | true => exact hnegative
      simp only [hread]
      by_cases hm : magnitude.m = 0
      · rw [← nearest_of_zero hx hm hvalue]
      · rw [← nearest_of_canonical hx hm hvalue]

end Darkroom.Decimal
