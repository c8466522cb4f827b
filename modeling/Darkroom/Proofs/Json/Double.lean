import Darkroom.Proofs.Json.Numeral
import Darkroom.Proofs.Json.Scaled

/-!
# Finite doubles in JSON

The shortest digits of a finite double make up a well-formed number, laid out with a point or with
an exponent, and a reader of that number finds a double (`exists_ofFinite`). With a point the digits
are only divided. With an exponent they are scaled up, and what is gathered of them does not leave
the range (`scaled?_shortest`).
-/

namespace Darkroom.Numeral

open Decimal
open Text.Integer (natDigits)

/-! ## Gathering digits -/

def appendDigits (value : Nat) (digits : List Nat) : Nat :=
  digits.foldl (fun value d => value * 10 + d) value

theorem appendDigits_append (value : Nat) (ds es : List Nat) :
    appendDigits value (ds ++ es) = appendDigits (appendDigits value ds) es :=
  List.foldl_append

theorem mul_pow_le_appendDigits : ∀ (ds : List Nat) (value : Nat),
    value * 10 ^ ds.length ≤ appendDigits value ds
  | [], value => by rw [List.length_nil, pow_zero, mul_one]; exact le_rfl
  | d :: ds, value => by
      calc value * 10 ^ (ds.length + 1) = value * 10 * 10 ^ ds.length := by
            rw [pow_succ', Nat.mul_assoc]
        _ ≤ (value * 10 + d) * 10 ^ ds.length := Nat.mul_le_mul_right _ (Nat.le_add_right _ _)
        _ ≤ appendDigits (value * 10 + d) ds := mul_pow_le_appendDigits ds _

theorem appendDigits_lt : ∀ {ds : List Nat}, (∀ d ∈ ds, d < 10) → ∀ value : Nat,
    appendDigits value ds < (value + 1) * 10 ^ ds.length
  | [], _, value => by
      rw [List.length_nil, pow_zero, mul_one]
      exact Nat.lt_succ_self value
  | d :: ds, h, value => by
      have hd : d < 10 := h d List.mem_cons_self
      have htail := appendDigits_lt (fun d' hd' => h d' (List.mem_cons_of_mem d hd'))
        (value * 10 + d)
      calc appendDigits (value * 10 + d) ds < (value * 10 + d + 1) * 10 ^ ds.length := htail
        _ ≤ (value + 1) * 10 * 10 ^ ds.length := Nat.mul_le_mul_right _ (by omega)
        _ = (value + 1) * 10 ^ (ds.length + 1) := by rw [pow_succ', Nat.mul_assoc]

/-- Digits are gathered from the front, the others are left over. -/
theorem exists_gather : ∀ (ds : List Nat) (value : Nat), ∃ taken rest,
    ds = taken ++ rest ∧ gather value ds = (appendDigits value taken, rest)
  | [], value => ⟨[], [], rfl, rfl⟩
  | d :: ds, value => by
      rw [gather]
      split
      · exact ⟨[], d :: ds, rfl, rfl⟩
      · obtain ⟨taken, rest, hsplit, hgather⟩ := exists_gather ds (value * 10 + d)
        exact ⟨d :: taken, rest, by rw [hsplit, List.cons_append], hgather⟩

/-- Digits that fit are all gathered. -/
theorem gather_of_le : ∀ {ds : List Nat} {value : Nat}, appendDigits value ds ≤ maxSignificand →
    gather value ds = (appendDigits value ds, [])
  | [], _, _ => rfl
  | d :: ds, value, h => by
      have hstep : value * 10 + d ≤ maxSignificand :=
        le_trans (le_trans (Nat.le_mul_of_pos_right _ (by positivity))
          (mul_pow_le_appendDigits ds _)) h
      rw [gather, if_neg (not_lt.mpr hstep)]
      exact gather_of_le h

/-! ## With a point -/

/-- A number with a short whole part, a fraction and no exponent. Doubles of moderate size are
written in this way, and here the fraction tells a double from an integer. -/
structure Positional (n : Numeral) : Prop where
  wellFormed : n.WellFormed
  short : n.whole.length ≤ 16
  fraction : n.fraction ≠ []
  exponent : n.exponent = none

theorem toFloat?_of_positional {n : Numeral} (h : n.Positional) : n.toFloat?.isSome := by
  obtain ⟨negative, whole, fraction, exponent⟩ := n
  obtain ⟨hwellFormed, hshort, hfraction, rfl⟩ := h
  obtain ⟨d, ds, rfl⟩ := List.exists_cons_of_ne_nil hfraction
  have hd : d < 10 := hwellFormed.fraction d List.mem_cons_self
  have hwhole : appendDigits 0 whole < 10 ^ 16 := by
    refine lt_of_lt_of_le (appendDigits_lt hwellFormed.whole 0) ?_
    rw [zero_add, one_mul]
    exact Nat.pow_le_pow_right (by decide) hshort
  have hmax : maxSignificand = 18446744073709551615 := rfl
  have hfits : gather 0 whole = (appendDigits 0 whole, []) := gather_of_le (by omega)
  obtain ⟨taken, rest, hsplit, hgather⟩ := exists_gather ds (appendDigits 0 whole * 10 + d)
  have hfirst : gather (appendDigits 0 whole) (d :: ds)
      = (appendDigits (appendDigits 0 whole * 10 + d) taken, rest) := by
    rw [gather, if_neg (by omega), hgather]
  have hlength : ds.length = taken.length + rest.length := by rw [hsplit, List.length_append]
  simp only [toFloat?, hfits, hfirst, Option.isSome_map]
  refine scaled?_of_neg ?_
  simp only [List.length_cons, List.length_nil, Option.getD_none]
  omega

/-! ## With an exponent -/

theorem appendDigits_digitsOf (n : Nat) : appendDigits 0 (digitsOf n) = n :=
  ofDigits_digitsOf n

/-- The digits of a number behind its first one, and the exponent of the first. The reader gathers
some of them, and all if they fit. -/
theorem exists_scaled {digits d : Nat} {ds : List Nat} (negative : Bool) (exp : Int)
    (hdigits : digitsOf digits = d :: ds) (hpos : 0 < digits) :
    ∃ significand k : Nat, 0 < significand ∧ significand * 10 ^ k ≤ digits
      ∧ (digits ≤ maxSignificand → significand = digits ∧ k = 0)
      ∧ (toFloat? ⟨negative, [d], ds, some (exp + ds.length)⟩).isSome
        = (scaled? significand (exp + k)).isSome := by
  have hd : d < 10 := lt_of_mem_digitsOf (by rw [hdigits]; exact List.mem_cons_self)
  have hd0 : d ≠ 0 := by
    rintro rfl
    exact head_digitsOf hpos (by rw [hdigits]; rfl)
  have hvalue : appendDigits d ds = digits := by
    have hvalue := appendDigits_digitsOf digits
    rw [hdigits] at hvalue
    simpa [appendDigits] using hvalue
  have hfirst : gather 0 [d] = (d, []) := by
    rw [gather, if_neg (by rw [maxSignificand]; omega), gather, Nat.zero_mul, Nat.zero_add]
  obtain ⟨taken, rest, hsplit, hgather⟩ := exists_gather ds d
  have hlength : ds.length = taken.length + rest.length := by rw [hsplit, List.length_append]
  refine ⟨appendDigits d taken, rest.length, ?_, ?_, ?_, ?_⟩
  · exact lt_of_lt_of_le (by positivity) (mul_pow_le_appendDigits taken d)
  · rw [← hvalue, hsplit, appendDigits_append]
    exact mul_pow_le_appendDigits rest _
  · intro hle
    rw [gather_of_le (hvalue.trans_le hle)] at hgather
    obtain ⟨hall, hnone⟩ := Prod.mk.inj hgather
    exact ⟨hall.symm.trans hvalue, by rw [← hnone]; rfl⟩
  · have hexp : (([] : List Nat).length : Int) - (ds.length - rest.length : Nat)
        + (some (exp + ds.length)).getD 0 = exp + rest.length := by
      rw [Option.getD_some, List.length_nil]
      omega
    simp only [toFloat?, hfirst, hgather, hexp, Option.isSome_map]

/-! ## Scaling the digits of a double -/

/-- The largest double has seventeen digits, of which the last leaves just enough room. -/
theorem shortest_max :
    (⟨9007199254740991, 971, false⟩ : Binary).shortest .toEven = ⟨17976931348623157, 292⟩ := by
  decide +kernel

theorem scaled?_max : (scaled? 17976931348623157 292).isSome := by
  decide +kernel

theorem exponent_le {exponent : Nat} {v : ℚ} (hle : 10 ^ exponent ≤ v) (hlt : v < overflowLimit) :
    exponent ≤ 308 := by
  have hbound : (10 : ℚ) ^ exponent < 10 ^ 309 := hle.trans_lt (hlt.trans overflowLimit_lt_ten_pow)
  exact Nat.lt_succ_iff.mp ((pow_lt_pow_iff_right₀ (by norm_num)).mp hbound)

theorem digits_le_of_exp {d : Scaled} (hexp : 292 ≤ d.exp) (hlt : d.value < overflowLimit) :
    d.digits ≤ maxSignificand := by
  have hten : (10 : ℚ) ^ 292 ≤ 10 ^ d.exp := by
    rw [← zpow_natCast]
    exact zpow_le_zpow_right₀ (by norm_num) hexp
  have hbound : (d.digits : ℚ) * 10 ^ 292 < 10 ^ 17 * 10 ^ 292 :=
    calc (d.digits : ℚ) * 10 ^ 292 ≤ d.value := mul_le_mul_of_nonneg_left hten (Nat.cast_nonneg _)
      _ < 10 ^ 309 := hlt.trans overflowLimit_lt_ten_pow
      _ = 10 ^ 17 * 10 ^ 292 := pow_add 10 17 292
  have hdigits : d.digits < 10 ^ 17 := by
    exact_mod_cast lt_of_mul_lt_mul_right hbound (by positivity)
  exact le_trans hdigits.le (by decide)

theorem eq_max {x : Binary} (hnarrow : x.narrowBelow ↔ x.m = 2 ^ 52 ∧ -1074 < x.q)
    (hm : x.m = 9007199254740991) (hq : x.q = 971) : x = ⟨9007199254740991, 971, false⟩ := by
  obtain ⟨m, q, narrowBelow⟩ := x
  obtain rfl : m = 9007199254740991 := hm
  obtain rfl : q = 971 := hq
  have hfalse : narrowBelow = false := by simpa using hnarrow
  rw [hfalse]

section Near

variable {x : Binary} (hc : Canonical x.m x.q)
  (hnarrow : x.narrowBelow ↔ x.m = 2 ^ 52 ∧ -1074 < x.q)
include hc hnarrow

theorem value_lt_overflowLimit (tie : Tie) : (x.shortest tie).value < overflowLimit := by
  have hlimit := lt_overflowLimit hc (near_shortest hc hnarrow tie)
  rwa [div_mul_cancel₀ _ (zpow_two_pos x.q).ne'] at hlimit

theorem value_le_of_ne_max (tie : Tie) (hmax : x.m ≠ 9007199254740991) :
    (x.shortest tie).value ≤ ((2 ^ 54 - 3) * 2 ^ 970 : Nat) := by
  have hnear := near_shortest hc hnarrow tie
  have hm : x.m + 2 ≤ 2 ^ 53 := by
    have hlt := hc.lt
    omega
  have hm : (x.m : ℚ) + 2 ≤ 2 ^ 53 := by exact_mod_cast hm
  have hexp : (2 : ℚ) ^ x.q ≤ 2 ^ (971 : Int) := zpow_le_zpow_right₀ (by norm_num) hc.high
  have hlimit : ((2 ^ 53 - 3 / 2) * 2 ^ (971 : Int) : ℚ) = ((2 ^ 54 - 3) * 2 ^ 970 : Nat) := by
    rw [zpow_two_top, Nat.cast_mul, Nat.cast_pow, Nat.cast_ofNat]
    generalize (2 : ℚ) ^ 970 = a
    push_cast
    ring
  rw [← hlimit]
  calc (x.shortest tie).value = (x.shortest tie).value / 2 ^ x.q * 2 ^ x.q := eq_units _ x.q
    _ ≤ (2 ^ 53 - 3 / 2) * 2 ^ x.q :=
        mul_le_mul_of_nonneg_right (by linarith [hnear.le]) (zpow_two_pos x.q).le
    _ ≤ (2 ^ 53 - 3 / 2) * 2 ^ (971 : Int) := mul_le_mul_of_nonneg_left hexp (by norm_num)

theorem large_of_value (tie : Tie) (h : ((17 * 10 ^ 307 : Nat) : ℚ) < (x.shortest tie).value) :
    (10 : ℚ) ^ 308 ≤ x.m * 2 ^ x.q := by
  have hpos := zpow_two_pos x.q
  have hm : (1 : ℚ) ≤ x.m := by exact_mod_cast hc.pos
  have hle : (x.shortest tie).value ≤ (x.m + 1 / 2) * 2 ^ x.q := by
    rw [← div_le_iff₀ hpos]
    exact (near_shortest hc hnarrow tie).le
  have hhalf : (x.m + 1 / 2 : ℚ) * 2 ^ x.q ≤ 3 / 2 * (x.m * 2 ^ x.q) := by nlinarith
  rw [Nat.cast_mul, Nat.cast_pow, Nat.cast_ofNat, Nat.cast_ofNat] at h
  have hten : (10 : ℚ) ^ 308 = 10 * 10 ^ 307 := pow_succ' 10 307
  have hnonneg : (0 : ℚ) ≤ 10 ^ 307 := by positivity
  rw [hten]
  generalize (10 : ℚ) ^ 307 = a at h hnonneg ⊢
  linarith

/-- What a reader gathers of the digits of a double can be scaled. -/
theorem scaled?_shortest {significand k : Nat} (hpos : 0 < significand)
    (hle : significand * 10 ^ k ≤ (x.shortest .toEven).digits)
    (hall : (x.shortest .toEven).digits ≤ maxSignificand →
      significand = (x.shortest .toEven).digits ∧ k = 0) :
    (scaled? significand ((x.shortest .toEven).exp + k)).isSome := by
  have hlimit := value_lt_overflowLimit hc hnarrow .toEven
  rcases lt_or_ge ((x.shortest .toEven).exp + k) 0 with hneg | hnonneg
  · exact scaled?_of_neg hneg
  obtain ⟨exponent, hexponent⟩ := Int.eq_ofNat_of_zero_le hnonneg
  rw [hexponent]
  have hvalue : (significand * 10 ^ exponent : ℚ) ≤ (x.shortest .toEven).value := by
    have hpow : (10 : ℚ) ^ exponent = 10 ^ k * 10 ^ (x.shortest .toEven).exp := by
      rw [← zpow_natCast, ← zpow_natCast, ← zpow_add₀ (by norm_num), Int.add_comm, hexponent]
    have hle : (significand * 10 ^ k : ℚ) ≤ (x.shortest .toEven).digits := by exact_mod_cast hle
    rw [hpow, ← mul_assoc]
    exact mul_le_mul_of_nonneg_right hle (zpow_nonneg (by norm_num) _)
  have hsignificand : (1 : ℚ) ≤ significand := by exact_mod_cast hpos
  have hhigh : exponent ≤ 308 :=
    exponent_le (le_trans (le_mul_of_one_le_left (by positivity) hsignificand) hvalue) hlimit
  -- Below this bound the relative errors of both factors do no harm. Above it there are at most
  -- seventeen digits, so the significand is known to the last one.
  rcases le_or_gt (x.shortest .toEven).value (17 * 10 ^ 307 : Nat) with hsmall | hlarge
  · exact scaled?_of_le hpos hhigh (by exact_mod_cast hvalue.trans hsmall)
      ten_pow_bounds.2.2.2
  · have hlarge := large_of_value hc hnarrow .toEven hlarge
    have hlow := shortest_large hc hlarge hnarrow .toEven
    have hfits := digits_le_of_exp hlow hlimit
    obtain ⟨rfl, rfl⟩ := hall hfits
    by_cases hmax : x.m = 9007199254740991
    · have hx := eq_max hnarrow hmax (q_large hc hlarge)
      have hexp : exponent = 292 := by
        rw [hx, shortest_max] at hexponent
        exact (Int.ofNat.inj hexponent).symm
      rw [hexp, hx, shortest_max]
      exact scaled?_max
    · exact scaled?_of_large hpos (by omega) hhigh
        (by exact_mod_cast hvalue.trans (value_le_of_ne_max hc hnarrow .toEven hmax))

end Near

/-! ## Layout -/

theorem digitChars_append (ds es : List Nat) :
    digitChars (ds ++ es) = digitChars ds ++ digitChars es :=
  List.map_append

theorem digitChars_zeros (n : Nat) : digitChars (List.replicate n 0) = List.replicate n '0' :=
  List.map_replicate

theorem digitChars_take (n : Nat) (ds : List Nat) :
    digitChars (ds.take n) = (digitChars ds).take n :=
  List.map_take

theorem digitChars_drop (n : Nat) (ds : List Nat) :
    digitChars (ds.drop n) = (digitChars ds).drop n :=
  List.map_drop

theorem write_point {whole fraction : List Nat} (h : fraction ≠ []) :
    write ⟨false, whole, fraction, none⟩ = digitChars whole ++ '.' :: digitChars fraction := by
  simp [write, h]

theorem lt_of_mem_zeros {n d : Nat} (h : d ∈ List.replicate n 0) : d < 10 := by
  rw [List.eq_of_mem_replicate h]
  decide

section Layout

variable {digits : Nat} {exp : Int}

theorem positional_whole (hzero : digits = 0 → exp ≤ 0)
    (hshort : exp + (digitsOf digits).length ≤ 16) (hexp : 0 ≤ exp) :
    Positional ⟨false, digitsOf digits ++ List.replicate exp.toNat 0, [0], none⟩ := by
  refine ⟨⟨?_, ?_, ?_, ?_⟩, ?_, by simp, rfl⟩
  · simp [digitsOf_ne_nil]
  · intro d hd
    exact (List.mem_append.mp hd).elim lt_of_mem_digitsOf lt_of_mem_zeros
  · intro d rest heq
    rcases Nat.eq_zero_or_pos digits with rfl | hpos
    · have hexp : exp.toNat = 0 := by
        have hle := hzero rfl
        omega
      rw [hexp, digitsOf_zero] at heq
      cases heq
    · refine head_digitsOf hpos ?_
      have hhead := congrArg List.head? heq
      rwa [List.head?_append_of_ne_nil _ (digitsOf_ne_nil digits)] at hhead
  · simp
  · rw [List.length_append, List.length_replicate]
    omega

theorem positional_inside (hshort : exp + (digitsOf digits).length ≤ 16) (hexp : exp < 0)
    (hplaces : exp.natAbs < (digitsOf digits).length) :
    Positional ⟨false, (digitsOf digits).take ((digitsOf digits).length - exp.natAbs),
      (digitsOf digits).drop ((digitsOf digits).length - exp.natAbs), none⟩ := by
  refine ⟨⟨?_, ?_, ?_, ?_⟩, ?_, ?_, rfl⟩
  · rw [← List.length_pos_iff, List.length_take]
    omega
  · exact fun d hd => lt_of_mem_digitsOf (List.mem_of_mem_take hd)
  · intro d rest heq
    have hall := List.take_append_drop ((digitsOf digits).length - exp.natAbs) (digitsOf digits)
    simp only at heq
    rw [heq] at hall
    exact digitsOf_noZero digits d _ hall.symm
  · exact fun d hd => lt_of_mem_digitsOf (List.mem_of_mem_drop hd)
  · rw [List.length_take]
    omega
  · rw [← List.length_pos_iff, List.length_drop]
    omega

theorem positional_behind (digits places : Nat) :
    Positional ⟨false, [0], List.replicate places 0 ++ digitsOf digits, none⟩ := by
  refine ⟨⟨by simp, by simp, by simp, ?_⟩, by simp, by simp [digitsOf_ne_nil], rfl⟩
  intro d hd
  exact (List.mem_append.mp hd).elim lt_of_mem_zeros lt_of_mem_digitsOf

/-- Digits with a point are a number, unless they are zeros without a fraction. -/
theorem exists_positional (hzero : digits = 0 → exp ≤ 0)
    (hshort : exp + (digitsOf digits).length ≤ 16) :
    ∃ n : Numeral, Format.positional (natDigits digits) exp = n.write ∧ n.Positional := by
  have hlength := (length_digitsOf digits).symm
  rw [Format.positional, hlength]
  split
  · rename_i hexp
    refine ⟨_, ?_, positional_whole hzero hshort hexp⟩
    rw [write_point (by simp), digitChars_append, digitChars_zeros, digitChars_digitsOf]
    rfl
  · rename_i hexp
    simp only
    split
    · rename_i hplaces
      have hpositional := positional_inside hshort (not_le.mp hexp) hplaces
      refine ⟨_, ?_, hpositional⟩
      rw [write_point hpositional.fraction, digitChars_take, digitChars_drop, digitChars_digitsOf]
    · refine ⟨_, ?_, positional_behind digits (exp.natAbs - (digitsOf digits).length)⟩
      rw [write_point (by simp [digitsOf_ne_nil]), digitChars_append, digitChars_zeros,
        digitChars_digitsOf]
      rfl

/-- Digits with an exponent are a number. -/
theorem exists_scientific (digits : Nat) (lead : Int) :
    ∃ d ds, digitsOf digits = d :: ds
      ∧ doubleFormat.scientific (natDigits digits) lead = write ⟨false, [d], ds, some lead⟩ := by
  obtain ⟨d, ds, hdigits⟩ := List.exists_cons_of_ne_nil (digitsOf_ne_nil digits)
  refine ⟨d, ds, hdigits, ?_⟩
  have hplus : doubleFormat.plusExponent = true := rfl
  rw [← digitChars_digitsOf, hdigits]
  cases ds <;> simp [Format.scientific, write, digitChars, hplus]

theorem wellFormed_scientific {negative : Bool} {exponent : Option Int} {d : Nat} {ds : List Nat}
    (h : digitsOf digits = d :: ds) : WellFormed ⟨negative, [d], ds, exponent⟩ := by
  have hlt : ∀ d' ∈ d :: ds, d' < 10 := fun d' hd' => lt_of_mem_digitsOf (h ▸ hd')
  exact ⟨by simp, fun d' hd' => hlt d' (by simp_all), by simp,
    fun d' hd' => hlt d' (List.mem_cons_of_mem d hd')⟩

end Layout

/-! ## Doubles -/

theorem WellFormed.signed {n : Numeral} (h : n.WellFormed) (negative : Bool) :
    WellFormed { n with negative } :=
  ⟨h.nonempty, h.whole, h.noZero, h.fraction⟩

theorem Positional.signed {n : Numeral} (h : n.Positional) (negative : Bool) :
    Positional { n with negative } :=
  ⟨h.wellFormed.signed negative, h.short, h.fraction, h.exponent⟩

/-- A finite magnitude is zero, or a canonical number. The shortest digits also need to know whether
the neighbour below is nearer than the one above. -/
def IsMagnitude (x : Binary) : Prop :=
  x.m = 0 ∨ Canonical x.m x.q ∧ (x.narrowBelow ↔ x.m = 2 ^ 52 ∧ -1074 < x.q)

theorem shortest_of_digits_zero {x : Binary} (h : IsMagnitude x)
    (hzero : (x.shortest .toEven).digits = 0) : x.shortest .toEven = ⟨0, 0⟩ := by
  rcases h with hm | ⟨hc, hnarrow⟩
  · rw [Binary.shortest, if_pos hm]
  · exact absurd hzero (digits_pos hc hnarrow .toEven).ne'

/-- A finite double is a number of JSON, and reading that finds a double. -/
theorem exists_ofFinite {x : Binary} (h : IsMagnitude x) (negative : Bool) :
    ∃ n, ofFinite negative x = some n ∧ n.WellFormed ∧ n.toFloat?.isSome := by
  have hlength := length_digitsOf (x.shortest .toEven).digits
  have htie : doubleFormat.tie = .toEven := rfl
  have hfrom : doubleFormat.positionalFrom = -5 := rfl
  have hbelow : doubleFormat.positionalBelow = 16 := rfl
  simp only [ofFinite, Format.magnitude, htie, hfrom, hbelow, ← hlength]
  split
  · rename_i hlayout
    have hzero : (x.shortest .toEven).digits = 0 → (x.shortest .toEven).exp ≤ 0 := fun hzero => by
      rw [shortest_of_digits_zero h hzero]
    have hshort :
        (x.shortest .toEven).exp + (digitsOf (x.shortest .toEven).digits).length ≤ 16 := by
      rcases hlayout with hdigits | hlead
      · rw [shortest_of_digits_zero h hdigits, digitsOf_zero]
        decide
      · omega
    obtain ⟨n, htext, hpositional⟩ := exists_positional hzero hshort
    rw [htext, read?_write hpositional.wellFormed]
    exact ⟨_, rfl, hpositional.wellFormed.signed negative,
      toFloat?_of_positional (hpositional.signed negative)⟩
  · rename_i hlayout
    have hdigits : (x.shortest .toEven).digits ≠ 0 := fun hzero => hlayout (Or.inl hzero)
    obtain ⟨hc, hnarrow⟩ := h.resolve_left fun hm => hdigits (by rw [Binary.shortest, if_pos hm])
    obtain ⟨d, ds, hsplit, htext⟩ := exists_scientific (x.shortest .toEven).digits
      ((x.shortest .toEven).exp + (digitsOf (x.shortest .toEven).digits).length - 1)
    have hlead : (x.shortest .toEven).exp + (digitsOf (x.shortest .toEven).digits).length - 1
        = (x.shortest .toEven).exp + ds.length := by
      rw [hsplit, List.length_cons]
      omega
    obtain ⟨significand, k, hpos, hle, hall, hread⟩ := exists_scaled negative
      (x.shortest .toEven).exp hsplit (Nat.pos_of_ne_zero hdigits)
    rw [htext, read?_write (wellFormed_scientific hsplit), hlead]
    refine ⟨_, rfl, wellFormed_scientific hsplit, ?_⟩
    rw [hread]
    exact scaled?_shortest hc hnarrow hpos hle hall

end Darkroom.Numeral
