import Darkroom.Json.Numeral
import Darkroom.Proofs.Decimal.RoundTrip

/-!
# Numbers of JSON read back

A number whose digits are digits and whose whole part does not start with a needless zero is written
in a form that is read as the same number (`read?_write`). Integers are such numbers, and they stand
for themselves (`toInt?_ofInt`).
-/

namespace Darkroom.Numeral

open Decimal (spanDigits)
open Text.Integer (natDigits isDigit_of_mem_natDigits natDigits_ne_nil)

/-- A number in the form that readers accept. Nothing is asked of the exponent, which is any integer
once it has been read. -/
structure WellFormed (n : Numeral) : Prop where
  nonempty : n.whole ≠ []
  whole : ∀ d ∈ n.whole, d < 10
  noZero : ∀ d rest, n.whole ≠ 0 :: d :: rest
  fraction : ∀ d ∈ n.fraction, d < 10

/-! ## Digits -/

theorem isDigit_ofNat : ∀ d < 10, (Char.ofNat (48 + d)).isDigit := by decide

theorem toNat_ofNat_digit : ∀ d < 10, (Char.ofNat (48 + d)).toNat - 48 = d := by decide

theorem toNat_of_isDigit {c : Char} (h : c.isDigit) : 48 ≤ c.toNat ∧ c.toNat ≤ 57 := by
  simp only [Char.isDigit, Bool.and_eq_true, decide_eq_true_eq] at h
  exact h

section Digits

variable {digits : List Nat} (h : ∀ d ∈ digits, d < 10)
include h

theorem isDigit_of_mem_digitChars {c : Char} (hc : c ∈ digitChars digits) : c.isDigit := by
  obtain ⟨d, hd, rfl⟩ := List.mem_map.mp hc
  exact isDigit_ofNat d (h d hd)

theorem map_digitChars : (digitChars digits).map (fun c => c.toNat - 48) = digits := by
  rw [digitChars, List.map_map]
  exact (List.map_congr_left fun d hd => toNat_ofNat_digit d (h d hd)).trans (List.map_id' _)

/-- Written digits are taken back up to the first character that is none. -/
theorem spanDigits_digitChars {rest : List Char} (hrest : ∀ c ∈ rest.head?, ¬c.isDigit) :
    spanDigits (digitChars digits ++ rest) = (digits, rest) := by
  rw [Decimal.spanDigits_append (fun c hc => isDigit_of_mem_digitChars h hc) hrest,
    map_digitChars h]

end Digits

/-! ## Natural numbers -/

def digitsOf (n : Nat) : List Nat :=
  (spanDigits (natDigits n)).1

theorem digitsOf_eq (n : Nat) : digitsOf n = (natDigits n).map fun c => c.toNat - 48 := by
  rw [digitsOf, Decimal.spanDigits_all fun c hc => isDigit_of_mem_natDigits hc]

theorem digitsOf_ne_nil (n : Nat) : digitsOf n ≠ [] := by
  rw [digitsOf_eq]
  simpa using natDigits_ne_nil n

theorem length_digitsOf (n : Nat) : (digitsOf n).length = (natDigits n).length := by
  rw [digitsOf_eq, List.length_map]

theorem lt_of_mem_digitsOf {n d : Nat} (h : d ∈ digitsOf n) : d < 10 := by
  rw [digitsOf_eq] at h
  obtain ⟨c, hc, rfl⟩ := List.mem_map.mp h
  have hc := toNat_of_isDigit (isDigit_of_mem_natDigits hc)
  omega

theorem digitChars_digitsOf (n : Nat) : digitChars (digitsOf n) = natDigits n := by
  have hchar : ∀ c ∈ natDigits n, Char.ofNat (48 + (c.toNat - 48)) = c := by
    intro c hc
    obtain ⟨hlow, -⟩ := toNat_of_isDigit (isDigit_of_mem_natDigits hc)
    rw [Nat.add_sub_cancel' hlow, Char.ofNat_toNat]
  rw [digitsOf_eq, digitChars, List.map_map]
  exact (List.map_congr_left hchar).trans (List.map_id' _)

theorem ofDigits_digitsOf (n : Nat) : Decimal.ofDigits (digitsOf n) = n := by
  rw [digitsOf_eq, Decimal.ofDigits_map]
  exact Nat.ofDigitChars_ten_toDigits

/-- A number above zero starts with another digit than zero. -/
theorem head_natDigits {n : Nat} (h : 0 < n) : (natDigits n).head? ≠ some '0' := by
  induction n using Nat.strongRecOn with
  | ind n ih =>
    rcases Nat.lt_or_ge n 10 with hsmall | hlarge
    · have hdigit : ∀ n < 10, 0 < n → n.digitChar ≠ '0' := by decide
      rw [natDigits, Nat.toDigits_of_lt_base hsmall, List.head?_cons]
      exact fun heq => hdigit n hsmall h (Option.some.inj heq)
    · have hne : Nat.toDigits 10 (n / 10) ≠ [] := natDigits_ne_nil (n / 10)
      rw [natDigits, Nat.toDigits_of_base_le (by decide) hlarge, List.head?_append_of_ne_nil _ hne]
      exact ih (n / 10) (by omega) (by omega)

theorem head_digitsOf {n : Nat} (h : 0 < n) : (digitsOf n).head? ≠ some 0 := by
  have hhead := head_natDigits h
  cases hdigits : natDigits n with
  | nil => exact absurd hdigits (natDigits_ne_nil n)
  | cons c cs =>
    have hc := toNat_of_isDigit (isDigit_of_mem_natDigits (hdigits ▸ List.mem_cons_self))
    rw [digitsOf_eq, hdigits, List.map_cons, List.head?_cons]
    intro hzero
    have hnat : c.toNat = '0'.toNat := by
      have hzero := Option.some.inj hzero
      change c.toNat = 48
      omega
    rw [hdigits, List.head?_cons, Char.toNat_inj.mp hnat] at hhead
    exact hhead rfl

theorem digitsOf_zero : digitsOf 0 = [0] := by
  rfl

theorem digitsOf_noZero (n d : Nat) (rest : List Nat) : digitsOf n ≠ 0 :: d :: rest := by
  intro heq
  rcases Nat.eq_zero_or_pos n with rfl | hpos
  · rw [digitsOf_zero] at heq
    cases heq
  · exact head_digitsOf hpos (by rw [heq]; rfl)

/-! ## Writing and reading -/

def tail (n : Numeral) : List Char :=
  (if n.fraction.isEmpty then [] else '.' :: digitChars n.fraction)
    ++ (match n.exponent with
        | none => []
        | some e => 'e' :: (if 0 ≤ e then ['+'] else []) ++ Text.Integer.write e)

theorem write_eq (n : Numeral) :
    n.write = (if n.negative then ['-'] else []) ++ (digitChars n.whole ++ n.tail) := by
  obtain ⟨negative, whole, fraction, exponent⟩ := n
  cases exponent <;> simp only [write, tail, List.append_assoc]

theorem readExponent?_tail (e : Int) :
    Decimal.readExponent? ((if 0 ≤ e then ['+'] else []) ++ Text.Integer.write e) = some e := by
  have hread := Decimal.readExponent?_write true e
  simpa using hread

theorem readTail?_tail {n : Numeral} (h : n.WellFormed) :
    readTail? n.negative n.whole n.tail = some n := by
  obtain ⟨negative, whole, fraction, exponent⟩ := n
  have hfraction := h.fraction
  cases fraction with
  | nil =>
    cases exponent with
    | none => rfl
    | some e => simp [readTail?, tail, readExponent?_tail]
  | cons d ds =>
    cases exponent with
    | none =>
      have hspan : spanDigits (digitChars (d :: ds) ++ []) = (d :: ds, []) :=
        spanDigits_digitChars hfraction (by simp)
      rw [List.append_nil] at hspan
      simp [readTail?, tail, hspan]
    | some e =>
      have hspan : spanDigits (digitChars (d :: ds)
          ++ 'e' :: ((if 0 ≤ e then ['+'] else []) ++ Text.Integer.write e))
            = (d :: ds, 'e' :: ((if 0 ≤ e then ['+'] else []) ++ Text.Integer.write e)) :=
        spanDigits_digitChars hfraction (by simp)
      simp [readTail?, tail, hspan, readExponent?_tail]

theorem head_tail (n : Numeral) : ∀ c ∈ n.tail.head?, ¬c.isDigit := by
  obtain ⟨negative, whole, fraction, exponent⟩ := n
  cases fraction <;> cases exponent <;> simp [tail]

/-- A whole part without a needless zero, behind a sign or none. -/
theorem read?_of_spanDigits {negative : Bool} {text rest : List Char} {whole : List Nat}
    (hspan : spanDigits text = (whole, rest)) (hnonempty : whole ≠ [])
    (hzero : ∀ d ds, whole ≠ 0 :: d :: ds) (hhead : text.head? ≠ some '-') :
    read? ((if negative then ['-'] else []) ++ text) = readTail? negative whole rest := by
  unfold read?
  split
  rename_i negative' text' hsign
  have hparts : negative' = negative ∧ text' = text := by
    cases negative with
    | true =>
      cases hsign
      exact ⟨rfl, rfl⟩
    | false =>
      rw [if_neg Bool.false_ne_true, List.nil_append] at hsign
      split at hsign
      · exact absurd rfl hhead
      · cases hsign
        exact ⟨rfl, rfl⟩
  obtain ⟨rfl, rfl⟩ := hparts
  rw [hspan]
  split
  · rename_i heq
    exact absurd (Prod.mk.inj heq).1 hnonempty
  · rename_i heq
    exact absurd (Prod.mk.inj heq).1 (hzero _ _)
  · rename_i heq
    obtain ⟨rfl, rfl⟩ := Prod.mk.inj heq
    rfl

theorem head_digitChars {digits : List Nat} (hne : digits ≠ []) (h : ∀ d ∈ digits, d < 10)
    (rest : List Char) : ∃ c cs, digitChars digits ++ rest = c :: cs ∧ c.isDigit := by
  obtain ⟨d, ds, rfl⟩ := List.exists_cons_of_ne_nil hne
  exact ⟨_, _, rfl, isDigit_ofNat d (h d List.mem_cons_self)⟩

/-- A number that readers accept is read back. -/
theorem read?_write {n : Numeral} (h : n.WellFormed) : read? n.write = some n := by
  have hspan : spanDigits (digitChars n.whole ++ n.tail) = (n.whole, n.tail) :=
    spanDigits_digitChars h.whole n.head_tail
  have hhead : (digitChars n.whole ++ n.tail).head? ≠ some '-' := by
    obtain ⟨c, cs, heq, hc⟩ := head_digitChars h.nonempty h.whole n.tail
    rw [heq, List.head?_cons]
    intro hminus
    exact Text.Integer.not_isDigit_minus (Option.some.inj hminus ▸ hc)
  rw [write_eq, read?_of_spanDigits hspan h.nonempty h.noZero hhead, readTail?_tail h]

/-! ## Integers -/

theorem wellFormed_ofInt (n : Int) : (ofInt n).WellFormed :=
  ⟨digitsOf_ne_nil n.natAbs, fun _ => lt_of_mem_digitsOf, digitsOf_noZero n.natAbs, by simp [ofInt]⟩

/-- An integer stands for itself. -/
theorem toInt?_ofInt (n : Int) : (ofInt n).toInt? = some n := by
  have hvalue : Decimal.ofDigits (ofInt n).whole = n.natAbs := ofDigits_digitsOf n.natAbs
  have hsign : (ofInt n).negative = decide (n < 0) := rfl
  rw [toInt?, if_pos ⟨rfl, rfl⟩, hvalue, hsign]
  by_cases hn : n < 0
  · rw [decide_eq_true hn]
    obtain ⟨k, hk⟩ : ∃ k, n.natAbs = k + 1 := ⟨n.natAbs - 1, by omega⟩
    rw [hk]
    exact congrArg some (by omega)
  · rw [decide_eq_false hn]
    exact congrArg some (by omega)

end Darkroom.Numeral
