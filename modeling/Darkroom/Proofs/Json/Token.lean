import Darkroom.Json.Printer
import Darkroom.Json.Token
import Darkroom.Proofs.Json.Numeral
import Darkroom.Proofs.Text.Percent

/-!
# Written values cut into tokens

A written value is cut into the tokens that it is made of, whatever its layout and whatever follows
it, as long as no number runs on (`lex_write`). Texts are read back character by character, escaped
or not, and the blanks of a layout leave no token.
-/

namespace Darkroom.Json

namespace Token

/-! ## Texts -/

theorem hexQuad?_control {n : Nat} (h : n < 32) :
    hexQuad? '0' '0' (Text.Hex.lowerDigit (n / 16)) (Text.Hex.lowerDigit (n % 16)) = some n := by
  have hzero : Text.Hex.digit? '0' = some 0 := rfl
  have hhigh := Text.Hex.digit?_lowerDigit (n / 16) (by omega)
  have hlow := Text.Hex.digit?_lowerDigit (n % 16) (by omega)
  simp only [hexQuad?, hzero, hhigh, hlow, Option.bind_eq_bind, Option.bind_some]
  exact congrArg some (by omega)

theorem ofUnit_control {n : Nat} (h : n < 32) : Piece.ofUnit n = .char (Char.ofNat n) := by
  have hhigh : isHighSurrogate n = false := by simp [isHighSurrogate]; omega
  have hlow : isLowSurrogate n = false := by simp [isLowSurrogate]; omega
  rw [Piece.ofUnit, hhigh, hlow]
  rfl

theorem readPieces_escape {c c' : Char} (h : unescape? c = some c') (hu : c ≠ 'u')
    (rest : List Char) :
    readPieces ('\\' :: c :: rest) = (readPieces rest).map (consPiece (.char c')) := by
  rw [readPieces, h]
  exact fun _ _ _ _ _ hc => absurd hc hu

/-- A character, escaped or not, is read as itself. -/
theorem readPieces_escapeChar (c : Char) (rest : List Char) :
    readPieces (escapeChar c ++ rest) = (readPieces rest).map (consPiece (.char c)) := by
  unfold escapeChar
  split
  · subst c; exact readPieces_escape rfl (by decide) rest
  split
  · subst c; exact readPieces_escape rfl (by decide) rest
  split
  · subst c; exact readPieces_escape rfl (by decide) rest
  split
  · subst c; exact readPieces_escape rfl (by decide) rest
  split
  · subst c; exact readPieces_escape rfl (by decide) rest
  split
  · subst c; exact readPieces_escape rfl (by decide) rest
  split
  · subst c; exact readPieces_escape rfl (by decide) rest
  split
  · rename_i hcontrol
    simp only [List.cons_append, List.nil_append]
    rw [readPieces, hexQuad?_control hcontrol]
    simp only [ofUnit_control hcontrol, Char.ofNat_toNat]
  · rename_i hquote hbackslash _ _ _ _ _ hcontrol
    rw [List.singleton_append, readPieces, if_neg (by simp [hcontrol, hbackslash])]
    · exact hquote
    · exact fun _ _ _ _ _ hc => absurd hc hbackslash
    · exact fun _ _ hc => absurd hc hbackslash

theorem readPieces_quote : ∀ (cs rest : List Char),
    readPieces (cs.flatMap escapeChar ++ '"' :: rest) = some (cs.map .char, rest)
  | [], rest => by rw [List.flatMap_nil, List.nil_append, readPieces, List.map_nil]
  | c :: cs, rest => by
      rw [List.flatMap_cons, List.append_assoc, readPieces_escapeChar, readPieces_quote cs rest]
      rfl

theorem joinPieces_char : ∀ cs : List Char, joinPieces (cs.map .char) = some cs
  | [] => rfl
  | c :: cs => by rw [List.map_cons, joinPieces, joinPieces_char cs, Option.map_some]

theorem lex_quote (s : String) (rest : List Char) :
    lex (quote s ++ rest) = (lex rest).map (.text (some s) :: ·) := by
  have hread : readPieces (s.toList.flatMap escapeChar ++ (['"'] ++ rest))
      = some (s.toList.map .char, rest) := readPieces_quote s.toList rest
  rw [quote, List.append_assoc, List.cons_append, lex]
  split
  · rename_i heq
    rw [hread] at heq
    cases heq
  · rename_i r heq
    rw [hread] at heq
    cases heq
    simp only [joinPieces_char, Option.map_some, String.ofList_toList]

/-! ## Numbers -/

/-- What stands behind a number does not run on with it. Every other token shows its own end, so
this is asked of all texts behind a token alike. -/
def Stops (rest : List Char) : Prop :=
  ∀ c ∈ rest.head?, isNumberChar c = false

theorem isNumberChar_of_isDigit {c : Char} (h : c.isDigit) : isNumberChar c := by
  simp only [Char.isDigit, Bool.and_eq_true, decide_eq_true_eq] at h
  have hrange : ('0' ≤ c && c ≤ '9') = true := by
    rw [Bool.and_eq_true, decide_eq_true_eq, decide_eq_true_eq]
    exact h
  rw [isNumberChar, hrange]
  rfl

theorem isNumberChar_of_mem_write {n : Numeral} (h : n.WellFormed) {c : Char} (hc : c ∈ n.write) :
    isNumberChar c := by
  have hdigits : ∀ {digits : List Nat}, (∀ d ∈ digits, d < 10) → c ∈ Numeral.digitChars digits →
      isNumberChar c := fun hlt hmem =>
    isNumberChar_of_isDigit (Numeral.isDigit_of_mem_digitChars hlt hmem)
  have hexponent : ∀ e, c ∈ Text.Integer.write e → isNumberChar c := by
    intro e hmem
    rcases Text.Integer.mem_write hmem with hdigit | rfl
    · exact isNumberChar_of_isDigit hdigit
    · rfl
  obtain ⟨negative, whole, fraction, exponent⟩ := n
  rw [Numeral.write] at hc
  simp only [List.mem_append] at hc
  rcases hc with ((hsign | hwhole) | hfraction) | hexp
  · split at hsign
    · obtain rfl := List.mem_singleton.mp hsign
      rfl
    · cases hsign
  · exact hdigits h.whole hwhole
  · split at hfraction
    · cases hfraction
    · rcases List.mem_cons.mp hfraction with rfl | hmem
      · rfl
      · exact hdigits h.fraction hmem
  · cases exponent with
    | none => cases hexp
    | some e =>
      simp only [List.mem_cons, List.mem_append] at hexp
      rcases hexp with (rfl | hplus) | hmem
      · rfl
      · split at hplus
        · obtain rfl := List.mem_singleton.mp hplus
          rfl
        · cases hplus
      · exact hexponent e hmem

theorem write_eq_cons {n : Numeral} (h : n.WellFormed) :
    ∃ c cs, n.write = c :: cs ∧ (c = '-' ∨ c.isDigit) := by
  obtain ⟨c, cs, heq, hc⟩ := Numeral.head_digitChars h.nonempty h.whole n.tail
  rw [Numeral.write_eq]
  split
  · exact ⟨'-', _, rfl, Or.inl rfl⟩
  · exact ⟨c, cs, heq, Or.inr hc⟩

/-- At a character that starts a number, all characters of numbers are taken. -/
theorem lex_number {c : Char} {cs rest : List Char} {n : Numeral} (hc : c = '-' ∨ c.isDigit)
    (hcs : ∀ d ∈ cs, isNumberChar d) (hrest : Stops rest)
    (hread : Numeral.read? (c :: cs) = some n) :
    lex (c :: (cs ++ rest)) = (lex rest).map (.number n :: ·) := by
  have hne : ∀ d : Char, d ≠ '-' → ¬d.isDigit → c ≠ d := by
    rintro d hminus hdigit rfl
    exact hc.elim hminus hdigit
  have hspace : isSpace c = false := by
    simp [isSpace, hne ' ' (by decide) (by decide), hne '\n' (by decide) (by decide),
      hne '\t' (by decide) (by decide), hne '\r' (by decide) (by decide)]
  have hnumber : isNumberChar c := by
    rcases hc with rfl | hdigit
    · rfl
    · exact isNumberChar_of_isDigit hdigit
  have htake : (cs ++ rest).takeWhile isNumberChar = cs := by
    rw [List.takeWhile_append_of_pos hcs]
    cases rest with
    | nil => simp
    | cons d ds => simp [hrest d rfl]
  have hdrop : (cs ++ rest).dropWhile isNumberChar = rest := by
    rw [List.dropWhile_append_of_pos hcs]
    cases rest with
    | nil => rfl
    | cons d ds => simp [hrest d rfl]
  rw [lex]
  · simp only [hspace, hnumber, htake, hdrop, hread, if_true, Bool.false_eq_true, if_false]
  · exact hne _ (by decide) (by decide)
  · exact hne _ (by decide) (by decide)
  · exact hne _ (by decide) (by decide)
  · exact hne _ (by decide) (by decide)
  · exact hne _ (by decide) (by decide)
  · exact hne _ (by decide) (by decide)
  · exact fun _ hd => absurd hd (hne _ (by decide) (by decide))
  · exact fun _ hd => absurd hd (hne _ (by decide) (by decide))
  · exact fun _ hd => absurd hd (hne _ (by decide) (by decide))
  · exact hne _ (by decide) (by decide)

theorem lex_numeral {n : Numeral} (h : n.WellFormed) {rest : List Char} (hrest : Stops rest) :
    lex (n.write ++ rest) = (lex rest).map (.number n :: ·) := by
  obtain ⟨c, cs, heq, hc⟩ := write_eq_cons h
  have hread := Numeral.read?_write h
  have hcs : ∀ d ∈ cs, isNumberChar d := fun d hd =>
    isNumberChar_of_mem_write h (heq ▸ List.mem_cons_of_mem c hd)
  rw [heq] at hread ⊢
  exact lex_number hc hcs hrest hread

/-! ## Blanks -/

theorem lex_space {c : Char} (h : isSpace c) (rest : List Char) : lex (c :: rest) = lex rest := by
  have hc : c = ' ' ∨ c = '\n' ∨ c = '\t' ∨ c = '\r' := by
    simpa [isSpace, or_assoc] using h
  rcases hc with rfl | rfl | rfl | rfl <;> rw [lex, if_pos h] <;> simp

theorem lex_blanks (rest : List Char) : ∀ n : Nat, lex (List.replicate n ' ' ++ rest) = lex rest
  | 0 => rfl
  | n + 1 => by
      rw [List.replicate_succ, List.cons_append, lex_space rfl, lex_blanks rest n]

theorem lex_lineBreak (layout : Layout) (level : Nat) (rest : List Char) :
    lex (layout.lineBreak level ++ rest) = lex rest := by
  cases layout with
  | compact => rfl
  | indented =>
    rw [Layout.lineBreak, List.cons_append, lex_space rfl, lex_blanks]

theorem lex_colon (layout : Layout) (rest : List Char) :
    lex (layout.colon ++ rest) = (lex rest).map (.colon :: ·) := by
  cases layout with
  | compact => rw [Layout.colon, List.cons_append, lex, List.nil_append]
  | indented =>
    rw [Layout.colon, List.cons_append, List.cons_append, lex, lex_space rfl, List.nil_append]

/-! ## Lists of parts -/

/-- A text is cut into the given tokens, whatever follows that is not part of a number. Such texts
can be put one after the other, which is how whole values are cut. -/
def Lexes (text : List Char) (part : List Token) : Prop :=
  ∀ rest, Stops rest → lex (text ++ rest) = (lex rest).map (part ++ ·)

/-- Parts with a comma between any two. -/
def separated : List (List Token) → List Token
  | [] => []
  | part :: rest => part ++ rest.flatMap (.comma :: ·)

theorem stops_cons {c : Char} (h : isNumberChar c = false) (rest : List Char) :
    Stops (c :: rest) := by
  intro d hd
  rw [← Option.some.inj hd]
  exact h

theorem stops_lineBreak (layout : Layout) (level : Nat) {rest : List Char} (h : Stops rest) :
    Stops (layout.lineBreak level ++ rest) := by
  cases layout with
  | compact => exact h
  | indented => exact stops_cons rfl _

section Bracketed

variable (layout : Layout) (level : Nat) {opening closing : Char} {o c : Token}
  {items : List (List Char)} {parts : List (List Token)}
  (hopening : ∀ rest, lex (opening :: rest) = (lex rest).map (o :: ·))
  (hclosing : ∀ rest, lex (closing :: rest) = (lex rest).map (c :: ·))
  (hstops : isNumberChar closing = false)
  (hitems : List.Forall₂ Lexes items parts)

omit hclosing hitems in
include hstops in
theorem stops_further (items : List (List Char)) (rest : List Char) :
    Stops (items.flatMap (fun item => ',' :: layout.lineBreak (level + 1) ++ item)
      ++ (layout.lineBreak level ++ closing :: rest)) := by
  cases items with
  | nil => exact stops_lineBreak layout level (stops_cons hstops rest)
  | cons item items => exact stops_cons rfl _

include hclosing hstops hitems in
/-- The items behind the first one, up to the closing bracket. -/
theorem lex_further (rest : List Char) :
    lex (items.flatMap (fun item => ',' :: layout.lineBreak (level + 1) ++ item)
        ++ (layout.lineBreak level ++ closing :: rest))
      = (lex rest).map (parts.flatMap (.comma :: ·) ++ c :: ·) := by
  induction hitems with
  | nil => rw [List.flatMap_nil, List.nil_append, lex_lineBreak, hclosing]; rfl
  | @cons item part items parts hitem _ ih =>
    have hfollow := stops_further layout level hstops items rest
    rw [List.flatMap_cons, List.append_assoc, List.append_assoc, List.cons_append, lex,
      lex_lineBreak, hitem _ hfollow, ih, Option.map_map, Option.map_map]
    simp [Function.comp_def]

include hopening hclosing hstops hitems in
theorem lexes_bracketed :
    Lexes (bracketed layout level opening closing items) (o :: separated parts ++ [c]) := by
  intro rest _
  cases hitems with
  | nil =>
    rw [bracketed, List.cons_append, List.singleton_append, hopening, hclosing, Option.map_map]
    rfl
  | @cons item part items parts hitem hrest =>
    have hfollow := stops_further layout level hstops items rest
    have hfurther := lex_further layout level hclosing hstops hrest rest
    simp only [bracketed, List.cons_append, List.append_assoc, List.nil_append]
    simp only [List.cons_append] at hfollow hfurther
    rw [hopening, lex_lineBreak, hitem _ hfollow, hfurther, Option.map_map, Option.map_map]
    simp [Function.comp_def, separated]

end Bracketed

/-! ## Values -/

mutual

/-- The tokens that a value is made of. Spaces and line breaks are gone here, so both layouts of a
value are cut into the same tokens, and the parser has to be looked at once. -/
def ofValue : Json → List Token
  | .null => [.null]
  | .bool b => [.bool b]
  | .number n => [.number n]
  | .text s => [.text s]
  | .array items => .beginArray :: separated (ofItems items) ++ [.endArray]
  | .object members => .beginObject :: separated (ofMembers members) ++ [.endObject]

def ofItems : List Json → List (List Token)
  | [] => []
  | v :: rest => ofValue v :: ofItems rest

def ofMembers : List (Option String × Json) → List (List Token)
  | [] => []
  | (key, v) :: rest => (.text key :: .colon :: ofValue v) :: ofMembers rest

end

end Token

/-- A value in which every number is well formed and every text is one. A text that is none stands
for broken escapes, which a reader may find and a writer does not make. -/
inductive Printable : Json → Prop where
  | null : Printable .null
  | bool (b : Bool) : Printable (.bool b)
  | number {n : Numeral} (h : n.WellFormed) : Printable (.number n)
  | text (s : String) : Printable (.text (some s))
  | array {items : List Json} (h : ∀ v ∈ items, Printable v) : Printable (.array items)
  | object {members : List (Option String × Json)} (keys : ∀ m ∈ members, m.1.isSome)
      (values : ∀ m ∈ members, Printable m.2) : Printable (.object members)

namespace Token

section Values

variable (layout : Layout)

theorem lexes_items : ∀ {items : List Json},
    (∀ v ∈ items, ∀ level, Lexes (v.write layout level) (ofValue v)) → ∀ level,
      List.Forall₂ Lexes (writeItems layout level items) (ofItems items)
  | [], _, _ => by rw [writeItems, ofItems]; exact .nil
  | v :: items, h, level => by
      rw [writeItems, ofItems]
      exact .cons (h v List.mem_cons_self level)
        (lexes_items (fun w hw => h w (List.mem_cons_of_mem v hw)) level)

theorem lexes_members : ∀ {members : List (Option String × Json)},
    (∀ m ∈ members, m.1.isSome) →
    (∀ m ∈ members, ∀ level, Lexes (m.2.write layout level) (ofValue m.2)) → ∀ level,
      List.Forall₂ Lexes (writeMembers layout level members) (ofMembers members)
  | [], _, _, _ => by rw [writeMembers, ofMembers]; exact .nil
  | (key, v) :: members, hkeys, h, level => by
      obtain ⟨key, rfl⟩ := Option.isSome_iff_exists.mp (hkeys (key, v) List.mem_cons_self)
      have hv := h (some key, v) List.mem_cons_self level
      rw [writeMembers, ofMembers]
      refine .cons ?_ (lexes_members (fun m hm => hkeys m (List.mem_cons_of_mem _ hm))
        (fun m hm => h m (List.mem_cons_of_mem _ hm)) level)
      intro rest hrest
      rw [List.append_assoc, List.append_assoc, lex_quote, lex_colon, hv rest hrest,
        Option.map_map, Option.map_map]
      rfl

/-- A written value is cut into the tokens that it is made of. -/
theorem lex_write {v : Json} (h : v.Printable) :
    ∀ level, Lexes (v.write layout level) (ofValue v) := by
  induction h with
  | null =>
    intro level rest _
    have hword : "null".toList ++ rest = 'n' :: 'u' :: 'l' :: 'l' :: rest := rfl
    rw [write, ofValue, hword, lex]
    rfl
  | bool b =>
    intro level rest _
    cases b with
    | false =>
      have hword : "false".toList ++ rest = 'f' :: 'a' :: 'l' :: 's' :: 'e' :: rest := rfl
      rw [write, ofValue, hword, lex]
      rfl
    | true =>
      have hword : "true".toList ++ rest = 't' :: 'r' :: 'u' :: 'e' :: rest := rfl
      rw [write, ofValue, hword, lex]
      rfl
  | number h =>
    intro level rest hrest
    rw [write, ofValue, lex_numeral h hrest]
    rfl
  | text s =>
    intro level rest _
    rw [write, ofValue, lex_quote]
    rfl
  | array h ih =>
    intro level
    rw [write, ofValue]
    exact lexes_bracketed layout level (fun rest => by rw [lex]) (fun rest => by rw [lex]) rfl
      (lexes_items layout ih (level + 1))
  | object keys values ih =>
    intro level
    rw [write, ofValue]
    exact lexes_bracketed layout level (fun rest => by rw [lex]) (fun rest => by rw [lex]) rfl
      (lexes_members layout keys ih (level + 1))

end Values

end Token

end Darkroom.Json
