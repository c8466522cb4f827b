import Darkroom.Proofs.Action.Values

/-!
# The grammar of blobs and escapes

A blob is a text of pairs of hexadecimal digits, and so is what follows the percent sign of an escape.
The reader of a pair reads a number, though, and a number may begin with a plus sign: `+f` is fifteen.
With such signs read as zeros (`zeroSigns`, `zeroEscapeSigns`) the texts that are accepted are those of
the grammar, and two texts of pairs stand for the same octets if they differ in case only.
-/

namespace Darkroom

namespace Text.Hex

/-! ## Digits -/

def IsDigit (c : Char) : Prop :=
  ('0' ≤ c ∧ c ≤ '9') ∨ ('a' ≤ c ∧ c ≤ 'f') ∨ ('A' ≤ c ∧ c ≤ 'F')

instance (c : Char) : Decidable (IsDigit c) :=
  inferInstanceAs (Decidable (_ ∨ _ ∨ _))

theorem toNat_toLower (c : Char) :
    c.toLower.toNat = if 65 ≤ c.toNat ∧ c.toNat ≤ 90 then c.toNat + 32 else c.toNat := by
  have hval : c.toNat = c.val.toNat := rfl
  have hlow : 'A'.val.toNat = 65 := rfl
  have hhigh : 'Z'.val.toNat = 90 := rfl
  have hstep : ('a'.val - 'A'.val).toNat = 32 := rfl
  rw [Char.toLower]
  split
  · rename_i h
    rw [ge_iff_le, UInt32.le_iff_toNat_le, UInt32.le_iff_toNat_le, hlow, hhigh, ← hval] at h
    rw [if_pos h, Char.toNat, UInt32.toNat_add, hstep, ← hval]
    omega
  · rename_i h
    rw [ge_iff_le, UInt32.le_iff_toNat_le, UInt32.le_iff_toNat_le, hlow, hhigh, ← hval] at h
    rw [if_neg h]

theorem digit?_toLower (c : Char) : digit? c.toLower = digit? c := by
  simp only [digit?, toNat_toLower]
  grind

/-- The value of a digit gives it back, up to its case. -/
theorem digit?_eq_some_iff {c : Char} {n : Nat} :
    digit? c = some n ↔ n < 16 ∧ c.toLower = lowerDigit n := by
  constructor
  · intro h
    have hcode : n < 16 ∧ c.toLower.toNat = if n < 10 then 0x30 + n else 0x57 + n := by
      rw [toNat_toLower]
      grind [digit?]
    refine ⟨hcode.1, ?_⟩
    rw [lowerDigit, ← hcode.2, Char.ofNat_toNat]
  · rintro ⟨hn, h⟩
    rw [← digit?_toLower, h, digit?_lowerDigit n hn]

theorem isDigit_iff (c : Char) : IsDigit c ↔ ∃ n, digit? c = some n := by
  have hle : ∀ d e : Char, d ≤ e ↔ d.toNat ≤ e.toNat := fun _ _ => Iff.rfl
  have hcodes : IsDigit c ↔ (0x30 ≤ c.toNat ∧ c.toNat ≤ 0x39)
      ∨ (0x61 ≤ c.toNat ∧ c.toNat ≤ 0x66) ∨ (0x41 ≤ c.toNat ∧ c.toNat ≤ 0x46) := by
    simp only [IsDigit, hle]
    exact Iff.rfl
  rw [hcodes, ← Option.isSome_iff_exists]
  dsimp only [digit?]
  split_ifs <;> simp only [Option.isSome_some, Option.isSome_none, Bool.false_eq_true, iff_true,
    iff_false] <;> omega

theorem utf8Size_of_digit? {c : Char} {n : Nat} (h : digit? c = some n) : c.utf8Size = 1 := by
  have hcode : c.toNat ≤ 127 := by grind [digit?]
  exact Char.utf8Size_eq_one_iff.mpr (UInt32.le_iff_toNat_le.mpr hcode)

/-! ## Pairs -/

/-- The first character of a pair. A plus sign is read as if the digit behind it stood alone, so
what is read of a pair is what is read of a zero and that digit. -/
def unsigned (c : Char) : Char :=
  if c = '+' then '0' else c

theorem pair?_eq (c d : Char) :
    pair? c d = (digit? (unsigned c)).bind fun high =>
      (digit? d).map fun low => UInt8.ofNat (16 * high + low) := by
  rw [pair?, unsigned]
  split_ifs with hc
  · have hzero : digit? '0' = some 0 := by decide
    rw [hzero]
    cases digit? d <;> simp
  · cases digit? d <;> cases digit? c <;> rfl

/-- A pair is read as the octet that it is the written form of, up to sign and case. -/
theorem pair?_eq_some_iff {c d : Char} {b : UInt8} :
    pair? c d = some b ↔ [(unsigned c).toLower, d.toLower] = lowerPair b := by
  have hlow : digit? d = some (b.toNat % 16) ↔ d.toLower = lowerDigit (b.toNat % 16) := by
    rw [digit?_eq_some_iff, and_iff_right (low_lt b)]
  have hhigh : digit? (unsigned c) = some (b.toNat / 16)
      ↔ (unsigned c).toLower = lowerDigit (b.toNat / 16) := by
    rw [digit?_eq_some_iff, and_iff_right (high_lt b)]
  rw [lowerPair, List.cons.injEq, List.cons.injEq, ← hlow, ← hhigh, pair?_eq]
  constructor
  · intro h
    obtain ⟨high, hc, h⟩ := Option.bind_eq_some_iff.mp h
    obtain ⟨low, hd, rfl⟩ := Option.map_eq_some_iff.mp h
    have hh := (digit?_eq_some_iff.mp hc).1
    have hl := (digit?_eq_some_iff.mp hd).1
    have hvalue : (UInt8.ofNat (16 * high + low)).toNat = 16 * high + low := by
      rw [UInt8.toNat_ofNat', Nat.mod_eq_of_lt]
      omega
    rw [hvalue, hc, hd]
    refine ⟨congrArg some ?_, congrArg some ?_, rfl⟩ <;> omega
  · rintro ⟨hc, hd, -⟩
    rw [hc, hd, Option.bind_some, Option.map_some, ofNat_high_low]

theorem unsigned_of_isDigit {c : Char} (h : IsDigit c) : unsigned c = c := by
  rw [unsigned, if_neg]
  rintro rfl
  revert h
  decide

/-- A pair of digits has no sign. -/
theorem unsigned_of_lowerPair {c d : Char} {b : UInt8}
    (h : [c.toLower, d.toLower] = lowerPair b) : unsigned c = c := by
  have hc : c.toLower = lowerDigit (b.toNat / 16) := (List.cons.inj h).1
  exact unsigned_of_isDigit ((isDigit_iff c).mpr ⟨_, digit?_eq_some_iff.mpr ⟨high_lt b, hc⟩⟩)

theorem exists_pair?_iff (c d : Char) :
    (∃ b, pair? c d = some b) ↔ IsDigit (unsigned c) ∧ IsDigit d := by
  rw [isDigit_iff, isDigit_iff, pair?_eq]
  cases digit? (unsigned c) <;> cases digit? d <;> simp

theorem utf8Size_of_pair? {c d : Char} {b : UInt8} (h : pair? c d = some b) :
    c.utf8Size = 1 ∧ d.utf8Size = 1 := by
  rw [pair?] at h
  cases hd : digit? d with
  | none =>
    rw [hd] at h
    cases h
  | some low =>
    rw [hd] at h
    refine ⟨?_, utf8Size_of_digit? hd⟩
    dsimp only at h
    split at h
    · rename_i hc
      rw [hc]
      decide
    · obtain ⟨high, hc, -⟩ := Option.map_eq_some_iff.mp h
      exact utf8Size_of_digit? hc

/-! ## Texts of pairs -/

/-- An even number of hexadecimal digits. These are the texts that blobs are written as. -/
def IsOctets (text : List Char) : Prop :=
  text.length % 2 = 0 ∧ ∀ c ∈ text, IsDigit c

/-- A text of pairs with zeros for the signs in front of them. The texts that are read are those
that become octets by this, which says exactly how much more is read than is written. -/
def zeroSigns : List Char → List Char
  | c :: d :: rest => unsigned c :: d :: zeroSigns rest
  | text => text

theorem zeroSigns_of_digits : ∀ {text : List Char}, (∀ c ∈ text, IsDigit c) →
    zeroSigns text = text
  | [], _ => rfl
  | [_], _ => rfl
  | c :: d :: rest, h => by
    rw [zeroSigns, unsigned_of_isDigit (h c List.mem_cons_self),
      zeroSigns_of_digits fun e he => h e (List.mem_cons_of_mem c (List.mem_cons_of_mem d he))]

end Text.Hex

namespace ParamValue

open Text.Hex

/-! ## Blobs -/

theorem cons_eq_lower_iff {c d : Char} {rest : List Char} {bytes : List UInt8} :
    c :: d :: rest = lower bytes
      ↔ ∃ b others, [c, d] = lowerPair b ∧ rest = lower others ∧ bytes = b :: others := by
  cases bytes with
  | nil => simp [lower]
  | cons b bytes => simp [lower, lowerPair, and_assoc]

theorem readPairs_cons_eq_ok_iff {c d : Char} {rest : List Char} {offset : Nat}
    {bytes : List UInt8} :
    readPairs offset (c :: d :: rest) = .ok bytes
      ↔ ∃ b others, pair? c d = some b ∧ readPairs (offset + 2) rest = .ok others
        ∧ bytes = b :: others := by
  rw [readPairs]
  cases pair? c d with
  | none => simp
  | some b => cases readPairs (offset + 2) rest <;> simp [Except.map, eq_comm]

/-- What is read as octets is their written form, up to signs and case. -/
theorem readPairs_eq_ok_iff : ∀ {text : List Char} {offset : Nat} {bytes : List UInt8},
    readPairs offset text = .ok bytes ↔ (zeroSigns text).map Char.toLower = lower bytes
  | [], _, bytes => by cases bytes <;> simp [readPairs, zeroSigns, lower, lowerPair]
  | [c], _, bytes => by cases bytes <;> simp [readPairs, zeroSigns, lower, lowerPair]
  | c :: d :: rest, offset, bytes => by
    rw [readPairs_cons_eq_ok_iff, zeroSigns, List.map_cons, List.map_cons, cons_eq_lower_iff]
    simp only [pair?_eq_some_iff, readPairs_eq_ok_iff]

theorem exists_readPairs_iff : ∀ (text : List Char) (offset : Nat),
    (∃ bytes, readPairs offset text = .ok bytes) ↔ IsOctets (zeroSigns text)
  | [], _ => by simp [readPairs, zeroSigns, IsOctets]
  | [c], _ => by simp [readPairs, zeroSigns, IsOctets]
  | c :: d :: rest, offset => by
    have hgrammar : IsOctets (zeroSigns (c :: d :: rest))
        ↔ (IsDigit (unsigned c) ∧ IsDigit d) ∧ IsOctets (zeroSigns rest) := by
      simp only [zeroSigns, IsOctets, List.length_cons, List.forall_mem_cons, Nat.add_mod_right,
        Nat.add_assoc]
      tauto
    rw [hgrammar, ← exists_pair?_iff, ← exists_readPairs_iff rest (offset + 2)]
    constructor
    · rintro ⟨_, h⟩
      obtain ⟨b, others, hpair, hrest, -⟩ := readPairs_cons_eq_ok_iff.mp h
      exact ⟨⟨b, hpair⟩, others, hrest⟩
    · rintro ⟨⟨b, hpair⟩, others, hrest⟩
      exact ⟨_, readPairs_cons_eq_ok_iff.mpr ⟨b, others, hpair, hrest, rfl⟩⟩

/-- Octets that can be read stand in as many octets twice. -/
theorem size_of_readPairs : ∀ {text : List Char} {offset : Nat} {bytes : List UInt8} (n : Nat),
    readPairs offset text = .ok bytes →
      text.foldl (fun n c => n + c.utf8Size) n = n + 2 * bytes.length
  | [], _, _, _, h => by
    cases h
    rfl
  | [_], _, _, _, h => by cases h
  | c :: d :: rest, _, _, n, h => by
    obtain ⟨b, others, hpair, hrest, rfl⟩ := readPairs_cons_eq_ok_iff.mp h
    obtain ⟨hc, hd⟩ := utf8Size_of_pair? hpair
    rw [List.foldl_cons, List.foldl_cons, size_of_readPairs _ hrest, hc, hd, List.length_cons]
    omega

/-- A text that is no even number of octets is no text of pairs either. -/
theorem readBlob_eq_ok_iff_readPairs {text : List Char} {bytes : List UInt8} :
    readBlob text = .ok bytes ↔ readPairs 0 text = .ok bytes := by
  rw [readBlob]
  split
  · rename_i hodd
    have hsize : ¬readPairs 0 text = .ok bytes := by
      intro h
      rw [size_of_readPairs 0 h] at hodd
      omega
    simp only [hsize, reduceCtorEq]
  · exact Iff.rfl

theorem readBlob_eq_ok_iff {text : List Char} {bytes : List UInt8} :
    readBlob text = .ok bytes ↔ (zeroSigns text).map Char.toLower = lower bytes := by
  rw [readBlob_eq_ok_iff_readPairs, readPairs_eq_ok_iff]

end ParamValue

/-! ## Escapes -/

namespace Text.Percent

open Hex

/-- The octets that an escaped text stands for. Behind a percent sign stand the two digits of an
octet, in either case; every other character stands for itself. -/
inductive Escaped : List Char → List UInt8 → Prop
  | nil : Escaped [] []
  | plain {c : Char} {rest : List Char} {bytes : List UInt8} (hc : c ≠ '%')
      (hrest : Escaped rest bytes) : Escaped (c :: rest) (String.utf8EncodeChar c ++ bytes)
  | escape {c d : Char} {rest : List Char} {b : UInt8} {bytes : List UInt8}
      (hpair : [c.toLower, d.toLower] = lowerPair b) (hrest : Escaped rest bytes) :
      Escaped ('%' :: c :: d :: rest) (b :: bytes)

/-- An escaped text with zeros for the signs that stand first in an escape. As with pairs of digits,
it reads like the text without the signs. -/
def zeroEscapeSigns : List Char → List Char
  | '%' :: c :: d :: rest => '%' :: unsigned c :: d :: zeroEscapeSigns rest
  | c :: rest => c :: zeroEscapeSigns rest
  | [] => []

theorem octets_escape_eq_ok_iff {whole rest : List Char} {c d : Char} {bytes : List UInt8} :
    octets whole ('%' :: c :: d :: rest) = .ok bytes
      ↔ ∃ b others, pair? c d = some b ∧ octets whole rest = .ok others ∧ bytes = b :: others := by
  constructor
  · intro h
    rw [octets] at h
    split at h
    · cases h
    · split at h
      · cases h
      · split at h
        · cases h
        · cases hpair : pair? c d with
          | none =>
            rw [hpair] at h
            cases h
          | some b =>
            rw [hpair] at h
            cases hrest : octets whole rest with
            | error fault =>
              rw [hrest] at h
              cases h
            | ok others =>
              rw [hrest] at h
              exact ⟨b, others, rfl, rfl, (Except.ok.inj h).symm⟩
  · rintro ⟨b, others, hpair, hrest, rfl⟩
    obtain ⟨hc, hd⟩ := utf8Size_of_pair? hpair
    rw [octets]
    simp only [hc, hd, hpair, hrest]
    rfl

theorem octets_plain_eq_ok_iff {whole rest : List Char} {c : Char} {bytes : List UInt8}
    (hc : c ≠ '%') : octets whole (c :: rest) = .ok bytes
      ↔ ∃ others, octets whole rest = .ok others ∧ bytes = String.utf8EncodeChar c ++ others := by
  rw [octets]
  · cases octets whole rest <;> simp [Except.map, eq_comm]
  · exact hc

theorem octets_short {whole rest : List Char} {bytes : List UInt8} (h : rest.length < 2) :
    octets whole ('%' :: rest) ≠ .ok bytes := by
  intro hread
  rcases rest with _ | ⟨c, _ | ⟨d, others⟩⟩
  · cases hread
  · rw [octets] at hread
    split at hread
    · cases hread
    · split at hread <;> cases hread
  · simp only [List.length_cons] at h
    omega

theorem length_zeroEscapeSigns (text : List Char) :
    (zeroEscapeSigns text).length = text.length := by
  fun_induction zeroEscapeSigns text with
  | case1 c d rest ih => rw [List.length_cons, List.length_cons, List.length_cons, ih]; rfl
  | case2 c rest _ ih => rw [List.length_cons, List.length_cons, ih]
  | case3 => rfl

theorem not_escaped_short {rest : List Char} {bytes : List UInt8} (h : rest.length < 2) :
    ¬Escaped ('%' :: rest) bytes := by
  intro hescaped
  cases hescaped with
  | plain hc => exact hc rfl
  | escape => simp at h

theorem octets_eq_ok_iff (whole : List Char) {text : List Char} {bytes : List UInt8} :
    octets whole text = .ok bytes ↔ Escaped (zeroEscapeSigns text) bytes := by
  fun_induction zeroEscapeSigns text generalizing bytes with
  | case1 c d rest ih =>
    rw [octets_escape_eq_ok_iff]
    constructor
    · rintro ⟨b, others, hpair, hrest, rfl⟩
      exact .escape (pair?_eq_some_iff.mp hpair) (ih.mp hrest)
    · intro h
      cases h with
      | plain hc => exact absurd rfl hc
      | escape hpair hrest =>
        exact ⟨_, _, pair?_eq_some_iff.mpr hpair, ih.mpr hrest, rfl⟩
  | case2 c rest hshape ih =>
    by_cases hc : c = '%'
    · -- The text ends within an escape; it would have been the first case otherwise.
      have hshort : rest.length < 2 := by
        rcases rest with _ | ⟨d, _ | ⟨e, others⟩⟩
        · exact Nat.two_pos
        · exact Nat.one_lt_two
        · exact absurd rfl (hshape d e others hc)
      rw [hc]
      refine iff_of_false (octets_short hshort) (not_escaped_short ?_)
      rwa [length_zeroEscapeSigns]
    · rw [octets_plain_eq_ok_iff hc]
      constructor
      · rintro ⟨others, hrest, rfl⟩
        exact .plain hc (ih.mp hrest)
      · intro h
        generalize zeroEscapeSigns rest = zeroed at ih h
        cases h with
        | plain _ hrest => exact ⟨_, ih.mpr hrest, rfl⟩
        | escape => exact absurd rfl hc
  | case3 =>
    constructor
    · intro h
      cases h
      exact .nil
    · intro h
      cases h
      rfl

theorem zeroEscapeSigns_of_escaped {text : List Char} {bytes : List UInt8}
    (h : Escaped text bytes) : zeroEscapeSigns text = text := by
  induction h with
  | nil => rfl
  | plain hc _ ih =>
    rw [zeroEscapeSigns, ih]
    exact fun _ _ _ h => absurd h hc
  | escape hpair _ ih => rw [zeroEscapeSigns, ih, unsigned_of_lowerPair hpair]

/-- An escaped word stands for the text whose octets it gives. -/
theorem decode_eq_ok_iff {text chars : List Char} :
    decode text = .ok chars ↔ Escaped (zeroEscapeSigns text) (Action.bytesOf chars) := by
  rw [← octets_eq_ok_iff text, decode]
  cases octets text text with
  | error fault => simp only [reduceCtorEq]
  | ok bytes =>
    dsimp only
    cases hread : ofUtf8? bytes with
    | none =>
      have hbytes : bytes ≠ Action.bytesOf chars := by
        rintro rfl
        rw [Action.bytesOf, ofUtf8?_encoded] at hread
        cases hread
      simp only [Except.ok.injEq, hbytes, reduceCtorEq]
    | some found =>
      have hbytes := eq_encoded_of_ofUtf8? hread
      refine ⟨fun h => ?_, fun h => ?_⟩
      · rw [hbytes, Except.ok.inj h, Action.bytesOf]
      · rw [Except.ok.inj h, Action.bytesOf, ofUtf8?_encoded] at hread
        rw [Option.some.inj hread]

end Text.Percent

namespace ParamValue

open Text.Hex Text.Percent

theorem readEscaped_eq_ok_iff {text : List Char} {s : String} :
    readEscaped text = .ok s ↔ Escaped (zeroEscapeSigns text) (Action.bytesOf s.toList) := by
  rw [← decode_eq_ok_iff, readEscaped]
  cases decode text with
  | error fault => simp only [reduceCtorEq]
  | ok chars =>
    refine ⟨fun h => ?_, fun h => ?_⟩
    · rw [← Except.ok.inj h, String.toList_ofList]
    · rw [Except.ok.inj h]
      exact congrArg Except.ok String.ofList_toList

/-- Blobs and escapes are accepted as their grammar has it, except that a plus sign in front of a
digit counts as a zero: with zeros for such signs the accepted texts are those of the grammar, and
without such a sign they are all of it. Two texts that are accepted as the same blob differ in case
and in signs for zeros only. -/
theorem accepted_up_to_signs (text other : List Char) :
    ((∃ bytes, readBlob text = .ok bytes) ↔ IsOctets (zeroSigns text))
      ∧ (IsOctets text ↔ (∃ bytes, readBlob text = .ok bytes) ∧ zeroSigns text = text)
      ∧ ((∃ bytes, readBlob text = .ok bytes ∧ readBlob other = .ok bytes)
        ↔ IsOctets (zeroSigns text)
          ∧ (zeroSigns other).map Char.toLower = (zeroSigns text).map Char.toLower)
      ∧ (∀ s, readEscaped text = .ok s
        ↔ Escaped (zeroEscapeSigns text) (Action.bytesOf s.toList))
      ∧ ((∃ s : String, Escaped text (Action.bytesOf s.toList))
        ↔ (∃ s, readEscaped text = .ok s) ∧ zeroEscapeSigns text = text) := by
  have hblob : (∃ bytes, readBlob text = .ok bytes) ↔ IsOctets (zeroSigns text) := by
    simp only [readBlob_eq_ok_iff_readPairs]
    exact exists_readPairs_iff text 0
  refine ⟨hblob, ⟨fun h => ?_, fun h => ?_⟩, ⟨?_, ?_⟩, fun s => readEscaped_eq_ok_iff, ⟨?_, ?_⟩⟩
  · have hsame := zeroSigns_of_digits h.2
    rw [hblob, hsame]
    exact ⟨h, rfl⟩
  · rw [hblob] at h
    exact h.2 ▸ h.1
  · rintro ⟨bytes, htext, hother⟩
    refine ⟨hblob.mp ⟨bytes, htext⟩, ?_⟩
    rw [readBlob_eq_ok_iff] at htext hother
    rw [htext, hother]
  · rintro ⟨hoctets, hlower⟩
    obtain ⟨bytes, htext⟩ := hblob.mpr hoctets
    refine ⟨bytes, htext, ?_⟩
    rw [readBlob_eq_ok_iff] at htext ⊢
    rw [hlower, htext]
  · rintro ⟨s, h⟩
    have hsame := zeroEscapeSigns_of_escaped h
    exact ⟨⟨s, readEscaped_eq_ok_iff.mpr (hsame.symm ▸ h)⟩, hsame⟩
  · rintro ⟨⟨s, h⟩, hsame⟩
    rw [readEscaped_eq_ok_iff, hsame] at h
    exact ⟨s, h⟩

/-- A sign makes a pair of one digit. -/
example : readBlob "+f".toList = .ok [15] := rfl

end ParamValue

end Darkroom
