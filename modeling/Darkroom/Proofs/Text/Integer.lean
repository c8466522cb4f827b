import Darkroom.Text.Integer

/-!
# Integers read back

A number in range is read from its decimal text as the same number: the digits of its magnitude
give the magnitude (`readDigits_of_isDigit`), and the sign picks the side.
-/

namespace Darkroom.Text.Integer

/-! ## Digits -/

theorem digit?_of_isDigit {c : Char} (h : c.isDigit) : digit? c = some (c.toNat - 48) := by
  simp only [Char.isDigit, Bool.and_eq_true, decide_eq_true_eq] at h
  exact if_pos h

theorem not_isDigit_plus : ¬ '+'.isDigit := by decide

theorem not_isDigit_minus : ¬ '-'.isDigit := by decide

theorem isDigit_of_mem_natDigits {n : Nat} {c : Char} (h : c ∈ natDigits n) : c.isDigit :=
  Nat.isDigit_of_mem_toDigits (by decide) (by decide) h

theorem natDigits_ne_nil (n : Nat) : natDigits n ≠ [] :=
  Nat.toDigits_ne_nil

/-- Digits never lower the value that they are appended to. -/
theorem le_ofDigitChars : ∀ (cs : List Char) (value : Nat), value ≤ Nat.ofDigitChars 10 cs value
  | [], _ => Nat.le_of_eq Nat.ofDigitChars_nil.symm
  | c :: cs, value => by
      rw [Nat.ofDigitChars_cons]
      exact Nat.le_trans (by omega) (le_ofDigitChars cs _)

/-- Digits are read as their value as long as that does not leave the bound; no value on the way is
larger, so no digit stops the reading. -/
theorem readDigits_of_isDigit {overflow : IntegerFault} {bound : Nat} :
    ∀ {cs : List Char} {value : Nat}, (∀ c ∈ cs, c.isDigit) →
      Nat.ofDigitChars 10 cs value ≤ bound →
      readDigits overflow bound value cs = .ok (Nat.ofDigitChars 10 cs value)
  | [], value, _, _ => by rw [readDigits, Nat.ofDigitChars_nil]
  | c :: cs, value, hd, hb => by
      have hc : c.isDigit := hd c List.mem_cons_self
      have hcs : ∀ d ∈ cs, d.isDigit := fun d hmem => hd d (List.mem_cons_of_mem c hmem)
      have hvalue : 10 * value + (c.toNat - '0'.toNat) = value * 10 + (c.toNat - 48) := by
        rw [Nat.mul_comm]; rfl
      rw [Nat.ofDigitChars_cons, hvalue] at hb ⊢
      have hle := le_ofDigitChars cs (value * 10 + (c.toNat - 48))
      rw [readDigits, digit?_of_isDigit hc]
      simp only
      rw [if_neg (by omega), readDigits_of_isDigit hcs hb]

theorem readDigits_natDigits {overflow : IntegerFault} {bound n : Nat} (h : n ≤ bound) :
    readDigits overflow bound 0 (natDigits n) = .ok n := by
  have hvalue : Nat.ofDigitChars 10 (natDigits n) 0 = n := Nat.ofDigitChars_ten_toDigits
  have hread : readDigits overflow bound 0 (natDigits n)
      = .ok (Nat.ofDigitChars 10 (natDigits n) 0) :=
    readDigits_of_isDigit (fun c hc => isDigit_of_mem_natDigits hc) (by omega)
  rwa [hvalue] at hread

/-! ## Signs -/

/-- Digits without a sign are a positive number. -/
theorem read_of_isDigit {low high : Int} : ∀ {cs : List Char}, cs ≠ [] → (∀ c ∈ cs, c.isDigit) →
    read low high cs = readPositive high cs
  | c :: cs, _, hd => by
      have hc : c.isDigit := hd c List.mem_cons_self
      have hplus : c ≠ '+' := fun h => not_isDigit_plus (h ▸ hc)
      have hminus : c ≠ '-' := fun h => not_isDigit_minus (h ▸ hc)
      rw [read] <;> simp [hplus, hminus]

theorem read_minus {low high : Int} : ∀ {cs : List Char}, cs ≠ [] → low < 0 →
    read low high ('-' :: cs) = readNegative low cs
  | c :: cs, _, hlow => by
      rw [read, if_pos hlow]
      exact List.cons_ne_nil c cs

theorem read_write {low high n : Int} (hlow : low ≤ n) (hhigh : n ≤ high) :
    read low high (write n) = .ok n := by
  by_cases hn : n < 0
  · rw [write, if_pos hn, read_minus (natDigits_ne_nil _) (by omega), readNegative,
      readDigits_natDigits (by omega)]
    have hneg : -(n.natAbs : Int) = n := by omega
    exact congrArg Except.ok hneg
  · rw [write, if_neg hn, read_of_isDigit (natDigits_ne_nil _) fun c => isDigit_of_mem_natDigits,
      readPositive, readDigits_natDigits (by omega)]
    have hpos : (n.natAbs : Int) = n := by omega
    exact congrArg Except.ok hpos

theorem readInt32_write (v : Int32) : readInt32 (write v.toInt) = .ok v := by
  have hlow := v.le_toInt
  have hhigh := v.toInt_lt
  rw [readInt32, read_write (by omega) (by omega)]
  exact congrArg Except.ok (Int32.ofInt_toInt v)

theorem readInt64_write (v : Int64) : readInt64 (write v.toInt) = .ok v := by
  have hlow := v.le_toInt
  have hhigh := v.toInt_lt
  rw [readInt64, read_write (by omega) (by omega)]
  exact congrArg Except.ok (Int64.ofInt_toInt v)

/-- The text of a number consists of digits, and perhaps a minus sign. -/
theorem mem_write {n : Int} {c : Char} (h : c ∈ write n) : c.isDigit ∨ c = '-' := by
  by_cases hn : n < 0
  · rw [write, if_pos hn, List.mem_cons] at h
    exact h.symm.imp isDigit_of_mem_natDigits id
  · rw [write, if_neg hn] at h
    exact Or.inl (isDigit_of_mem_natDigits h)

end Darkroom.Text.Integer
