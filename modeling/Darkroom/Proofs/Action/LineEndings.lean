import Darkroom.Proofs.Action.Append

/-!
# Line endings carry no meaning

A log is read line by line, and of a line only what stands before its final carriage returns. So two
texts with the same lines up to those read the same, errors included (`readAll_of_bareLines`). A log that
is read to its end is moreover given by its lines that are not empty, its records: a line more or less
without anything on it moves the numbers of the others, but nobody cites them (`readAll_of_records`).
-/

namespace Darkroom

namespace Text

/-! ## Carriage returns at the end of a line -/

theorem trimReturns_cons (c : Char) (line : List Char) :
    trimReturns (c :: line)
      = if trimReturns line = [] ∧ c = '\r' then [] else c :: trimReturns line := by
  simp only [trimReturns, List.reverse_cons, List.dropWhile_append, List.reverse_eq_nil_iff]
  cases hline : line.reverse.dropWhile (· == '\r') with
  | nil =>
    by_cases hc : c = '\r'
    · simp [hc]
    · simp [hc, beq_eq_false_iff_ne.mpr hc]
  | cons d rest => simp

theorem trimReturns_trimReturns (line : List Char) :
    trimReturns (trimReturns line) = trimReturns line := by
  induction line with
  | nil => rfl
  | cons c line ih =>
    rw [trimReturns_cons c line]
    split
    · rfl
    · rename_i hc
      rw [trimReturns_cons, ih, if_neg hc]

theorem trimReturns_replicate (n : Nat) : trimReturns (List.replicate n '\r') = [] := by
  induction n with
  | zero => rfl
  | succ n ih => rw [List.replicate_succ, trimReturns_cons, if_pos ⟨ih, rfl⟩]

/-! ## Lines from the front -/

theorem lines_cons_of_nil {c : Char} {rest : List Char} (hc : c ≠ '\n') (h : lines rest = []) :
    lines (c :: rest) = [[c]] := by
  rw [lines, if_neg hc, h]

theorem lines_cons_of_cons {c : Char} {rest line : List Char} {others : List (List Char)}
    (hc : c ≠ '\n') (h : lines rest = line :: others) :
    lines (c :: rest) = (c :: line) :: others := by
  rw [lines, if_neg hc, h]

theorem lines_cons_congr (c : Char) {rest other : List Char} (h : lines other = lines rest) :
    lines (c :: other) = lines (c :: rest) := by
  rw [lines, lines, h]

theorem lines_newline (rest : List Char) : lines ('\n' :: rest) = [] :: lines rest := by
  rw [lines, if_pos rfl]

theorem lines_newlines (n : Nat) (rest : List Char) :
    lines (List.replicate n '\n' ++ rest) = List.replicate n [] ++ lines rest := by
  induction n with
  | zero => rfl
  | succ n ih =>
    rw [List.replicate_succ, List.replicate_succ, List.cons_append, lines_newline, ih,
      List.cons_append]

/-! ## More carriage returns -/

def bareLines (text : List Char) : List (List Char) :=
  (lines text).map trimReturns

/-- A text with more carriage returns: `returns k` of them before newline `k`. As the numbers are
arbitrary, every mixture of line endings is among these texts. -/
def withReturns (returns : Nat → Nat) : List Char → List Char
  | [] => []
  | c :: rest =>
    if c = '\n' then
      List.replicate (returns 0) '\r' ++ '\n' :: withReturns (fun k => returns (k + 1)) rest
    else c :: withReturns returns rest

theorem bareLines_returns_newline (n : Nat) (rest : List Char) :
    bareLines (List.replicate n '\r' ++ '\n' :: rest) = [] :: bareLines rest := by
  have hreturns : '\n' ∉ List.replicate n '\r' := by
    intro hmem
    exact absurd (List.eq_of_mem_replicate hmem) (by decide)
  rw [bareLines, lines_append rest hreturns, List.map_cons, trimReturns_replicate, bareLines]

/-- A character goes in front of the first line; both texts have one or neither does. -/
theorem bareLines_cons_congr {c : Char} (hc : c ≠ '\n') {rest other : List Char}
    (h : bareLines other = bareLines rest) : bareLines (c :: other) = bareLines (c :: rest) := by
  rw [bareLines, bareLines] at h ⊢
  cases hlines : lines rest with
  | nil =>
    rw [hlines, List.map_nil, List.map_eq_nil_iff] at h
    rw [lines_cons_of_nil hc h, lines_cons_of_nil hc hlines]
  | cons line others =>
    rw [hlines, List.map_cons, List.map_eq_cons_iff] at h
    obtain ⟨line', others', hlines', hline, hothers⟩ := h
    rw [lines_cons_of_cons hc hlines', lines_cons_of_cons hc hlines, List.map_cons,
      List.map_cons, trimReturns_cons, trimReturns_cons, hline, hothers]

theorem bareLines_withReturns (returns : Nat → Nat) (text : List Char) :
    bareLines (withReturns returns text) = bareLines text := by
  induction text generalizing returns with
  | nil => rfl
  | cons c rest ih =>
    rw [withReturns]
    split
    · rename_i hc
      have hnewline : bareLines ('\n' :: rest) = [] :: bareLines rest :=
        bareLines_returns_newline 0 rest
      rw [hc, bareLines_returns_newline, hnewline, ih]
    · rename_i hc
      exact bareLines_cons_congr hc (ih returns)

example : withReturns (fun k => k) "a\nb\nc\n".toList = "a\nb\r\nc\r\r\n".toList := by decide

/-! ## More empty lines -/

def records (ls : List (List Char)) : List (List Char) :=
  (ls.map trimReturns).filter fun line => !line.isEmpty

theorem records_append (ls others : List (List Char)) :
    records (ls ++ others) = records ls ++ records others := by
  rw [records, List.map_append, List.filter_append]
  rfl

theorem records_cons (line : List Char) (ls : List (List Char)) :
    records (line :: ls) = records [line] ++ records ls :=
  records_append [line] ls

theorem records_replicate (n : Nat) : records (List.replicate n []) = [] := by
  induction n with
  | zero => rfl
  | succ n ih => rw [List.replicate_succ, records_cons, ih]; rfl

theorem records_singleton_of_nil {line : List Char} (h : trimReturns line = []) :
    records [line] = [] := by
  rw [records, List.map_singleton, h]
  rfl

theorem records_singleton {line : List Char} (h : trimReturns line ≠ []) :
    records [line] = [trimReturns line] := by
  rw [records, List.map_singleton, List.filter_cons_of_pos, List.filter_nil]
  rw [List.isEmpty_eq_false_iff.mpr h]
  rfl

/-- A text with more empty lines: `empties k` of them behind newline `k`, so before every line but
the first one and at the end. -/
def withEmptyLines (empties : Nat → Nat) : List Char → List Char
  | [] => []
  | c :: rest =>
    if c = '\n' then
      '\n' :: (List.replicate (empties 0) '\n' ++ withEmptyLines (fun k => empties (k + 1)) rest)
    else c :: withEmptyLines empties rest

theorem records_of_head_tail {ls others : List (List Char)} (hhead : ls.head? = others.head?)
    (htail : records ls.tail = records others.tail) : records ls = records others := by
  cases ls with
  | nil => cases others with
    | nil => rfl
    | cons line others => cases hhead
  | cons line ls => cases others with
    | nil => cases hhead
    | cons line' others =>
      obtain rfl : line = line' := Option.some.inj hhead
      rw [List.tail_cons, List.tail_cons] at htail
      rw [records_cons, records_cons line others, htail]

/-- The first line stays, since nothing is put in front of it; of the others the records stay. -/
theorem lines_withEmptyLines (empties : Nat → Nat) (text : List Char) :
    (lines (withEmptyLines empties text)).head? = (lines text).head?
      ∧ records (lines (withEmptyLines empties text)).tail = records (lines text).tail := by
  induction text generalizing empties with
  | nil => exact ⟨rfl, rfl⟩
  | cons c rest ih =>
    rw [withEmptyLines]
    split
    · rename_i hc
      obtain ⟨hhead, htail⟩ := ih fun k => empties (k + 1)
      rw [hc, lines_newline, lines_newline, lines_newlines]
      refine ⟨rfl, ?_⟩
      rw [List.tail_cons, List.tail_cons, records_append, records_replicate, List.nil_append]
      exact records_of_head_tail hhead htail
    · rename_i hc
      obtain ⟨hhead, htail⟩ := ih empties
      cases hlines : lines rest with
      | nil =>
        rw [hlines, List.head?_nil, List.head?_eq_none_iff] at hhead
        rw [lines_cons_of_nil hc hhead, lines_cons_of_nil hc hlines]
        exact ⟨rfl, rfl⟩
      | cons line others =>
        rw [hlines, List.head?_cons, List.head?_eq_some_iff] at hhead
        obtain ⟨others', hlines'⟩ := hhead
        rw [hlines, hlines'] at htail
        rw [lines_cons_of_cons hc hlines', lines_cons_of_cons hc hlines]
        exact ⟨rfl, htail⟩

theorem records_withEmptyLines (empties : Nat → Nat) (text : List Char) :
    records (lines (withEmptyLines empties text)) = records (lines text) :=
  have h := lines_withEmptyLines empties text
  records_of_head_tail h.1 h.2

/-! ## The final newline -/

theorem Ended.cons {c : Char} {rest : List Char} (hne : rest ≠ []) (h : Ended rest) :
    Ended (c :: rest) := by
  rcases h with h | h
  · exact absurd h hne
  · refine Or.inr ?_
    rw [List.getLast?_cons, h, Option.getD_some]

theorem lines_append_newline : ∀ {text : List Char}, ¬Ended text →
    lines (text ++ ['\n']) = lines text
  | [], h => absurd (Or.inl rfl) h
  | [c], h => by
    have hc : c ≠ '\n' := fun hc => h (Or.inr (congrArg some hc))
    have hnewline : lines ['\n'] = [[]] := rfl
    rw [List.singleton_append, lines_cons_of_cons hc hnewline, lines_cons_of_nil hc rfl]
  | c :: d :: rest, h => by
    have hrest := lines_append_newline fun hended => h (Ended.cons (List.cons_ne_nil d rest) hended)
    exact lines_cons_congr c hrest

/-- A final newline ends the last line, or stands for an empty one. -/
theorem records_append_newline (text : List Char) :
    records (lines (text ++ ['\n'])) = records (lines text) := by
  by_cases hended : Ended text
  · have hempty : records (lines ['\n']) = [] := rfl
    rw [lines_append_of_ended _ hended, records_append, hempty, List.append_nil]
  · rw [lines_append_newline hended]

end Text

/-! ## What a reading depends on -/

namespace LogState

theorem readLine_trimReturns (s : LogState) (line : List Char) :
    s.readLine (Text.trimReturns line) = s.readLine line := by
  rw [readLine, readLine, Text.trimReturns_trimReturns]

theorem readLines_trimReturns : ∀ (ls : List (List Char)) (s : LogState) (n : Nat),
    s.readLines n (ls.map Text.trimReturns) = s.readLines n ls
  | [], _, _ => rfl
  | line :: rest, s, n => by
    rw [List.map_cons, readLines, readLines, readLine_trimReturns]
    cases s.readLine line with
    | error fault => rfl
    | ok next => exact readLines_trimReturns rest next (n + 1)

/-- Lines without a fault are read as their records are, whatever their numbers. -/
theorem readLines_eq_ok_iff : ∀ {ls : List (List Char)} {s t : LogState} {n : Nat},
    s.readLines n ls = .ok t ↔ (Text.records ls).foldlM readLine s = .ok t
  | [], s, t, n => by
    rw [readLines, Text.records, List.map_nil, List.filter_nil, List.foldlM_nil]
    exact ⟨fun h => congrArg Except.ok (Except.ok.inj h),
      fun h => congrArg Except.ok (Except.ok.inj h)⟩
  | line :: rest, s, t, n => by
    rw [Text.records_cons, List.foldlM_append, readLines]
    by_cases hbare : Text.trimReturns line = []
    · have hline : s.readLine line = .ok s := by
        rw [readLine, hbare]
        rfl
      rw [hline, Text.records_singleton_of_nil hbare]
      exact readLines_eq_ok_iff
    · rw [Text.records_singleton hbare, List.foldlM_cons, readLine_trimReturns]
      cases s.readLine line with
      | error fault => constructor <;> intro h <;> cases h
      | ok next => exact readLines_eq_ok_iff

end LogState

namespace Action

/-- A log is read to its end with no block open. -/
theorem readAll_eq_ok_iff {text : List Char} {actions : List Action} :
    readAll text = .ok actions
      ↔ LogState.start.readLines 1 (Text.lines text) = .ok ⟨actions.reverse, none⟩ := by
  refine ⟨readLines_of_readAll, fun h => ?_⟩
  rw [readAll, h]
  exact congrArg Except.ok (List.reverse_reverse actions)

theorem readAll_of_bareLines {text other : List Char}
    (h : Text.bareLines other = Text.bareLines text) : readAll other = readAll text := by
  have hread : LogState.start.readLines 1 (Text.lines other)
      = LogState.start.readLines 1 (Text.lines text) := by
    rw [← LogState.readLines_trimReturns, ← Text.bareLines, h, Text.bareLines,
      LogState.readLines_trimReturns]
  have hlength : (Text.lines other).length = (Text.lines text).length := by
    rw [← List.length_map, ← Text.bareLines, h, Text.bareLines, List.length_map]
  rw [readAll, readAll, hread, hlength]

theorem readAll_of_records {text other : List Char} {actions : List Action}
    (h : Text.records (Text.lines other) = Text.records (Text.lines text)) :
    readAll other = .ok actions ↔ readAll text = .ok actions := by
  rw [readAll_eq_ok_iff, readAll_eq_ok_iff, LogState.readLines_eq_ok_iff,
    LogState.readLines_eq_ok_iff, h]

end Action

/-- Carriage returns in front of newlines change nothing of what a text is read as, be it a log or
not: the actions are the same, or the error with its line. For a log empty lines change nothing
either, nor does a final newline; and they make no log of a text that is none. -/
theorem line_endings (text : List Char) :
    (∀ returns, History.ofBytes (Action.bytesOf (Text.withReturns returns text))
        = History.ofBytes (Action.bytesOf text))
      ∧ (∀ empties actions,
        History.ofBytes (Action.bytesOf (Text.withEmptyLines empties text)) = .ok actions
          ↔ History.ofBytes (Action.bytesOf text) = .ok actions)
      ∧ ∀ actions, History.ofBytes (Action.bytesOf (text ++ ['\n'])) = .ok actions
          ↔ History.ofBytes (Action.bytesOf text) = .ok actions := by
  simp only [History.ofBytes_bytesOf]
  refine ⟨fun returns => ?_, fun empties actions => ?_, fun actions => ?_⟩
  · exact Action.readAll_of_bareLines (Text.bareLines_withReturns returns text)
  · exact Action.readAll_of_records (Text.records_withEmptyLines empties text)
  · exact Action.readAll_of_records (Text.records_append_newline text)

end Darkroom
