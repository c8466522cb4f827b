import Darkroom.Action.Reading

/-!
# Octets and escapes read back

Octets in UTF-8 stand for one text only, and the form of a character is never the beginning of
the form of another one. So what is left of the octets of a text when they are cut off somewhere
is either no text at all, or the octets of a beginning of the text (`textOf_cut`).

Every text has an escaped form that is read as that text (`decode_encode`) and that holds no blank,
no control character and none of the separators of lists (`notMem_encode`), so it can stand
as one field of a record. Octets as hexadecimal digits are read as those octets.
-/

namespace Darkroom

/-! ## Texts as octets -/

namespace Text.Percent

theorem ofUtf8?_encoded (text : List Char) :
    ofUtf8? (text.flatMap String.utf8EncodeChar) = some text := by
  have hb : (⟨(text.flatMap String.utf8EncodeChar).toArray⟩ : ByteArray)
      = (String.ofList text).toByteArray := by
    rw [String.toByteArray_ofList, List.utf8Encode, ← List.data_toByteArray]
  rw [ofUtf8?, hb, String.fromUTF8?, dif_pos (String.ofList text).isValidUTF8]
  exact congrArg some String.toList_ofList

/-- Only the octets of a text are read as that text. -/
theorem eq_encoded_of_ofUtf8? {bytes : List UInt8} {text : List Char}
    (h : ofUtf8? bytes = some text) : bytes = text.flatMap String.utf8EncodeChar := by
  rw [ofUtf8?, String.fromUTF8?] at h
  split at h
  · rename_i hvalid
    obtain ⟨s, hs, rfl⟩ := Option.map_eq_some_iff.mp h
    have hbytes : s.toByteArray = ⟨bytes.toArray⟩ := by
      rw [← Option.some.inj hs]; rfl
    rw [← String.ofList_toList (s := s), String.toByteArray_ofList, List.utf8Encode] at hbytes
    have hdata := congrArg ByteArray.data hbytes
    rw [List.data_toByteArray] at hdata
    simpa using (congrArg Array.toList hdata).symm
  · simp at h

/-- The form of a character is no beginning of the form of another one. -/
theorem eq_of_encodeChar_append {c d : Char} {x y : List UInt8}
    (h : String.utf8EncodeChar c ++ x = String.utf8EncodeChar d ++ y) : c = d := by
  have hbytes := congrArg List.toByteArray h
  rw [List.toByteArray_append, List.toByteArray_append] at hbytes
  have hc := ByteArray.utf8DecodeChar?_utf8EncodeChar_append (b := x.toByteArray) (c := c)
  rw [hbytes, ByteArray.utf8DecodeChar?_utf8EncodeChar_append] at hc
  exact (Option.some.inj hc).symm

theorem prefix_of_encoded : ∀ {s t : List Char},
    s.flatMap String.utf8EncodeChar <+: t.flatMap String.utf8EncodeChar → s <+: t
  | [], t, _ => List.nil_prefix
  | c :: s, [], h => by
      have hnil := List.prefix_nil.mp h
      rw [List.flatMap_cons, List.append_eq_nil_iff] at hnil
      exact absurd hnil.1 String.utf8EncodeChar_ne_nil
  | c :: s, d :: t, h => by
      obtain ⟨rest, h⟩ := h
      rw [List.flatMap_cons, List.flatMap_cons, List.append_assoc] at h
      obtain rfl := eq_of_encodeChar_append h
      have hrest := List.append_cancel_left h
      exact (List.prefix_cons_inj c).mpr (prefix_of_encoded ⟨rest, hrest⟩)

end Text.Percent

namespace Action

theorem bytesOf_append (s t : List Char) : bytesOf (s ++ t) = bytesOf s ++ bytesOf t :=
  List.flatMap_append

theorem textOf_bytesOf (text : List Char) : textOf (bytesOf text) = .ok text := by
  rw [textOf, bytesOf, Text.Percent.ofUtf8?_encoded]

/-- A beginning of the octets of a text is no text, or a beginning of the text. -/
theorem textOf_cut {text : List Char} {bytes : List UInt8} (h : bytes <+: bytesOf text) :
    textOf bytes = .error .notUtf8
      ∨ ∃ start, start <+: text ∧ bytes = bytesOf start ∧ textOf bytes = .ok start := by
  cases hread : Text.Percent.ofUtf8? bytes with
  | none => exact Or.inl (by rw [textOf, hread])
  | some start =>
      have hbytes := Text.Percent.eq_encoded_of_ofUtf8? hread
      refine Or.inr ⟨start, Text.Percent.prefix_of_encoded ?_, hbytes, by rw [textOf, hread]⟩
      rw [← hbytes]
      exact h

end Action

namespace Text

/-! ## Hexadecimal digits -/

namespace Hex

theorem digit?_upperDigit : ∀ n < 16, digit? (upperDigit n) = some n := by decide

theorem digit?_lowerDigit : ∀ n < 16, digit? (lowerDigit n) = some n := by decide

theorem upperDigit_ne_plus : ∀ n < 16, upperDigit n ≠ '+' := by decide

theorem lowerDigit_ne_plus : ∀ n < 16, lowerDigit n ≠ '+' := by decide

theorem utf8Size_upperDigit : ∀ n < 16, (upperDigit n).utf8Size = 1 := by decide

theorem utf8Size_lowerDigit : ∀ n < 16, (lowerDigit n).utf8Size = 1 := by decide

theorem high_lt (b : UInt8) : b.toNat / 16 < 16 := by
  have hb := b.toNat_lt
  omega

theorem low_lt (b : UInt8) : b.toNat % 16 < 16 :=
  Nat.mod_lt _ (by decide)

theorem ofNat_high_low (b : UInt8) :
    UInt8.ofNat (16 * (b.toNat / 16) + b.toNat % 16) = b := by
  rw [Nat.div_add_mod, UInt8.ofNat_toNat]

theorem pair?_of_digits {c d : Char} {b : UInt8} (hplus : c ≠ '+')
    (hhigh : digit? c = some (b.toNat / 16)) (hlow : digit? d = some (b.toNat % 16)) :
    pair? c d = some b := by
  rw [pair?, hlow]
  simp only [if_neg hplus, hhigh, Option.map_some, ofNat_high_low]

theorem pair?_upper (b : UInt8) :
    pair? (upperDigit (b.toNat / 16)) (upperDigit (b.toNat % 16)) = some b :=
  pair?_of_digits (upperDigit_ne_plus _ (high_lt b)) (digit?_upperDigit _ (high_lt b))
    (digit?_upperDigit _ (low_lt b))

theorem pair?_lower (b : UInt8) :
    pair? (lowerDigit (b.toNat / 16)) (lowerDigit (b.toNat % 16)) = some b :=
  pair?_of_digits (lowerDigit_ne_plus _ (high_lt b)) (digit?_lowerDigit _ (high_lt b))
    (digit?_lowerDigit _ (low_lt b))

end Hex

/-! ## Escapes -/

namespace Percent

/-- An escape is read as its octet. -/
theorem octets_encodeByte (whole : List Char) (b : UInt8) (rest : List Char) :
    octets whole (encodeByte b ++ rest) = (octets whole rest).map (b :: ·) := by
  have hhigh := Hex.utf8Size_upperDigit _ (Hex.high_lt b)
  have hlow := Hex.utf8Size_upperDigit _ (Hex.low_lt b)
  simp only [encodeByte, Hex.upperPair, List.cons_append, List.nil_append]
  rw [octets]
  simp [hhigh, hlow, Hex.pair?_upper]

theorem octets_encodeBytes (whole : List Char) : ∀ (bytes : List UInt8) (rest : List Char),
    octets whole (bytes.flatMap encodeByte ++ rest) = (octets whole rest).map (bytes ++ ·)
  | [], rest => by cases h : octets whole rest <;> simp [h, Except.map]
  | b :: bytes, rest => by
      rw [List.flatMap_cons, List.append_assoc, octets_encodeByte, octets_encodeBytes whole bytes]
      cases octets whole rest <;> rfl

/-- A character, escaped or not, is read as its octets. -/
theorem octets_encodeChar (whole : List Char) (c : Char) (rest : List Char) :
    octets whole (encodeChar c ++ rest)
      = (octets whole rest).map (String.utf8EncodeChar c ++ ·) := by
  by_cases hc : isSpecial c
  · rw [encodeChar, if_pos hc, octets_encodeBytes]
  · have hpercent : c ≠ '%' := by
      rintro rfl
      exact hc (by decide)
    rw [encodeChar, if_neg hc, List.singleton_append, octets]
    exact hpercent

theorem octets_encode (whole : List Char) : ∀ text : List Char,
    octets whole (encode text) = .ok (text.flatMap String.utf8EncodeChar)
  | [] => rfl
  | c :: text => by
      rw [encode, List.flatMap_cons, octets_encodeChar, ← encode, octets_encode whole text]
      rfl

theorem decode_encode (text : List Char) : decode (encode text) = .ok text := by
  rw [decode, octets_encode]
  simp only [ofUtf8?_encoded]

/-! ## What an escaped word holds -/

theorem isSpecial_upperDigit : ∀ n < 16, isSpecial (Hex.upperDigit n) = false := by decide

theorem isSpecial_of_mem_encodeByte {b : UInt8} {c : Char} (h : c ∈ encodeByte b) :
    c = '%' ∨ isSpecial c = false := by
  simp only [encodeByte, Hex.upperPair, List.mem_cons, List.not_mem_nil, or_false] at h
  rcases h with rfl | rfl | rfl
  · exact Or.inl rfl
  · exact Or.inr (isSpecial_upperDigit _ (Hex.high_lt b))
  · exact Or.inr (isSpecial_upperDigit _ (Hex.low_lt b))

/-- Of the special characters only the percent sign stands in an escaped word. -/
theorem isSpecial_of_mem_encode {text : List Char} {c : Char} (h : c ∈ encode text) :
    c = '%' ∨ isSpecial c = false := by
  obtain ⟨d, -, hc⟩ := List.mem_flatMap.mp h
  by_cases hd : isSpecial d
  · rw [encodeChar, if_pos hd] at hc
    obtain ⟨b, -, hc⟩ := List.mem_flatMap.mp hc
    exact isSpecial_of_mem_encodeByte hc
  · rw [encodeChar, if_neg hd, List.mem_singleton] at hc
    exact Or.inr (by simpa [hc] using hd)

theorem notMem_encode {text : List Char} {c : Char} (hc : c ≠ '%') (hspecial : isSpecial c) :
    c ∉ encode text := by
  intro hmem
  rcases isSpecial_of_mem_encode hmem with h | h
  · exact hc h
  · rw [h] at hspecial
    cases hspecial

end Percent

end Text

end Darkroom
