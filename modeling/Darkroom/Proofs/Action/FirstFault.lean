import Darkroom.Proofs.Action.LineEndings

/-!
# The first fault

A reading that fails stops at the first line that is at fault. All lines before it were read
(`readLines_error`), so the error depends on nothing behind that line (`readLines_of_fault`), and what
had been read until then is a log once its open block is closed (`exists_readAll_of_readLines`). Only
a text whose lines are all without a fault can lack an `end`.
-/

namespace Darkroom

namespace Text

theorem notMem_of_mem_lines : ∀ {text line : List Char}, line ∈ lines text → '\n' ∉ line
  | [], _, h => by cases h
  | c :: rest, line, h => by
    by_cases hc : c = '\n'
    · rw [hc, lines_newline, List.mem_cons] at h
      rcases h with rfl | h
      · exact List.not_mem_nil
      · exact notMem_of_mem_lines h
    · cases hlines : lines rest with
      | nil =>
        rw [lines_cons_of_nil hc hlines, List.mem_singleton] at h
        rw [h, List.mem_singleton]
        exact Ne.symm hc
      | cons first others =>
        rw [lines_cons_of_cons hc hlines, List.mem_cons] at h
        rcases h with rfl | h
        · have hfirst : '\n' ∉ first := notMem_of_mem_lines (hlines ▸ List.mem_cons_self)
          rw [List.mem_cons, not_or]
          exact ⟨Ne.symm hc, hfirst⟩
        · exact notMem_of_mem_lines (hlines ▸ List.mem_cons_of_mem first h)

end Text

namespace LogState

/-- A reading that fails has read all lines before the one that it stopped at. -/
theorem readLines_error : ∀ {ls : List (List Char)} {s : LogState} {n : Nat} {e : LogError},
    s.readLines n ls = .error e →
      ∃ before line after t fault, ls = before ++ line :: after ∧ s.readLines n before = .ok t
        ∧ t.readLine line = .error fault ∧ e = .malformed (n + before.length) fault
  | [], _, _, _, h => by cases h
  | line :: rest, s, n, e, h => by
    rw [readLines] at h
    cases hline : s.readLine line with
    | error fault =>
      rw [hline] at h
      exact ⟨[], line, rest, s, fault, rfl, rfl, hline, (Except.error.inj h).symm⟩
    | ok next =>
      rw [hline] at h
      obtain ⟨before, bad, after, t, fault, rfl, hbefore, hbad, rfl⟩ := readLines_error h
      refine ⟨line :: before, bad, after, t, fault, rfl, ?_, hbad, ?_⟩
      · rw [readLines, hline]
        exact hbefore
      · rw [List.length_cons, Nat.add_right_comm, Nat.add_assoc]

/-- Nothing behind a line at fault matters. -/
theorem readLines_of_fault {s t : LogState} {n : Nat} {before : List (List Char)}
    {line : List Char} {fault : RecordFault} (hbefore : s.readLines n before = .ok t)
    (hline : t.readLine line = .error fault) (after : List (List Char)) :
    s.readLines n (before ++ line :: after) = .error (.malformed (n + before.length) fault) := by
  rw [readLines_append hbefore, readLines, hline]

end LogState

namespace Action

theorem readAll_terminated {ls : List (List Char)} {done : List Action}
    (hnewline : ∀ line ∈ ls, '\n' ∉ line)
    (hread : LogState.start.readLines 1 ls = .ok ⟨done, none⟩) :
    readAll (Text.terminated ls) = .ok done.reverse := by
  rw [readAll_eq_ok_iff, Text.lines_terminated hnewline, List.reverse_reverse]
  exact hread

/-- Lines that can be read are a log, by themselves or with the end of a block behind them. -/
theorem exists_readAll_of_readLines {ls : List (List Char)} {s : LogState}
    (hnewline : ∀ line ∈ ls, '\n' ∉ line) (hread : LogState.start.readLines 1 ls = .ok s) :
    ∃ actions, readAll (Text.terminated ls) = .ok actions
      ∨ readAll (Text.terminated ls ++ "end\n".toList) = .ok actions := by
  obtain ⟨done, block⟩ := s
  cases block with
  | none => exact ⟨done.reverse, Or.inl (readAll_terminated hnewline hread)⟩
  | some action =>
    have hend : Text.terminated ["end".toList] = "end\n".toList := by decide
    have hclosed : LogState.start.readLines 1 (ls ++ ["end".toList])
        = .ok ⟨action :: done, none⟩ := by
      rw [LogState.readLines_append hread, LogState.readLines, LogState.readLine_end]
      rfl
    refine ⟨(action :: done).reverse, Or.inr ?_⟩
    rw [← hend, ← Text.terminated_append]
    refine readAll_terminated (fun line hline => ?_) hclosed
    rcases List.mem_append.mp hline with h | h
    · exact hnewline line h
    · rw [List.mem_singleton.mp h]
      decide

/-- Closing the block that a text leaves open makes it a log. -/
theorem exists_readAll_of_open {text : List Char} {done : List Action} {action : Action}
    (hread : LogState.start.readLines 1 (Text.lines text) = .ok ⟨done, some action⟩) :
    ∃ actions, readAll (text ++ "\nend\n".toList) = .ok actions := by
  have hcut : text ++ "\nend\n".toList = (text ++ ['\n']) ++ "end\n".toList := by
    rw [List.append_assoc]
    rfl
  have hended : Text.Ended (text ++ ['\n']) := Or.inr List.getLast?_concat
  have hend : Text.lines "end\n".toList = ["end".toList] := by decide
  have hopen : LogState.start.readLines 1 (Text.lines (text ++ ['\n']))
      = .ok ⟨done, some action⟩ := by
    rw [LogState.readLines_eq_ok_iff, Text.records_append_newline, ← LogState.readLines_eq_ok_iff]
    exact hread
  refine ⟨(action :: done).reverse, ?_⟩
  rw [readAll_eq_ok_iff, List.reverse_reverse, hcut, Text.lines_append_of_ended _ hended, hend,
    LogState.readLines_append hopen, LogState.readLines, LogState.readLine_end]
  rfl

/-- A text that begins with lines that can be read and one that cannot fails at that one, whatever
carriage returns end the lines. -/
theorem readAll_of_fault {text line : List Char} {before : List (List Char)} {t : LogState}
    {fault : RecordFault}
    (htext : (Text.bareLines text).take (1 + before.length)
      = (before ++ [line]).map Text.trimReturns)
    (hbefore : LogState.start.readLines 1 before = .ok t)
    (hline : t.readLine line = .error fault) :
    readAll text = .error (.malformed (1 + before.length) fault) := by
  have hcut : Text.bareLines text = before.map Text.trimReturns ++ Text.trimReturns line
      :: (Text.bareLines text).drop (1 + before.length) := by
    have hsplit := List.take_append_drop (1 + before.length) (Text.bareLines text)
    rw [htext, List.map_append, List.append_assoc] at hsplit
    exact hsplit.symm
  rw [← LogState.readLines_trimReturns] at hbefore
  rw [← LogState.readLine_trimReturns] at hline
  have hread : LogState.start.readLines 1 (Text.lines text)
      = .error (.malformed (1 + before.length) fault) := by
    rw [← LogState.readLines_trimReturns, ← Text.bareLines, hcut,
      LogState.readLines_of_fault hbefore hline, List.length_map]
  rw [readAll, hread]

end Action

/-- An error cites the first bad line. Every text with the same lines up to that one fails in the
same way, carriage returns at their ends apart, and the lines before it are a log, by themselves or
with the end of a block behind them. The one other error is a block that is open at the end of the
text: the last line is cited then, and the text is a log with the missing record behind it. -/
theorem first_bad_line {text : List Char} {number : Nat} {fault : RecordFault}
    (h : History.ofBytes (Action.bytesOf text) = .error (.malformed number fault)) :
    (0 < number ∧ number ≤ (Text.lines text).length
        ∧ (∀ other, (Text.bareLines other).take number = (Text.bareLines text).take number →
          History.ofBytes (Action.bytesOf other) = .error (.malformed number fault))
        ∧ ∃ actions,
          History.ofBytes (Action.bytesOf (Text.terminated ((Text.lines text).take (number - 1))))
              = .ok actions
            ∨ History.ofBytes (Action.bytesOf
                (Text.terminated ((Text.lines text).take (number - 1)) ++ "end\n".toList))
              = .ok actions)
      ∨ (fault = .openBlock ∧ number = (Text.lines text).length
        ∧ ∃ actions, History.ofBytes (Action.bytesOf (text ++ "\nend\n".toList)) = .ok actions) := by
  simp only [History.ofBytes_bytesOf] at h ⊢
  rw [Action.readAll] at h
  cases hread : LogState.start.readLines 1 (Text.lines text) with
  | error e =>
    rw [hread] at h
    obtain ⟨before, line, after, t, fault', hlines, hbefore, hline, rfl⟩ :=
      LogState.readLines_error hread
    obtain ⟨rfl, rfl⟩ : 1 + before.length = number ∧ fault' = fault := by
      simpa using h
    have htake : (Text.bareLines text).take (1 + before.length)
        = (before ++ [line]).map Text.trimReturns := by
      rw [Text.bareLines, hlines, ← List.map_take, Nat.add_comm, List.take_length_add_append,
        List.take_succ_cons, List.take_zero]
    have hearlier : (Text.lines text).take (1 + before.length - 1) = before := by
      rw [Nat.add_sub_cancel_left, hlines, List.take_left]
    refine Or.inl ⟨by omega, ?_, fun other hother => ?_, ?_⟩
    · rw [hlines, List.length_append, List.length_cons]
      omega
    · exact Action.readAll_of_fault (hother.trans htake) hbefore hline
    · rw [hearlier]
      refine Action.exists_readAll_of_readLines (fun l hl => ?_) hbefore
      exact Text.notMem_of_mem_lines (hlines ▸ List.mem_append_left _ hl)
  | ok s =>
    obtain ⟨done, block⟩ := s
    rw [hread] at h
    cases block with
    | none => cases h
    | some action =>
      obtain ⟨rfl, rfl⟩ : (Text.lines text).length = number ∧ .openBlock = fault := by
        simpa using h
      exact Or.inr ⟨rfl, rfl, Action.exists_readAll_of_open hread⟩

/-- A block with a line that says nothing and, behind it, a value that is no truth value. The
first fault is in line 4, as the empty line counts and the display name is read up to the end of
its line. -/
def faulty : List Char :=
  "action x 1 complex\r\n\r\r\nname a b\nparam k bool maybe\nend\n".toList

theorem first_bad_line_faulty :
    History.ofBytes (Action.bytesOf faulty)
        = .error (.malformed 4 (.badBool "maybe".toList))
      ∧ (∀ other, (Text.bareLines other).take 4 = (Text.bareLines faulty).take 4 →
        History.ofBytes (Action.bytesOf other)
          = .error (.malformed 4 (.badBool "maybe".toList)))
      ∧ ∃ actions,
        History.ofBytes (Action.bytesOf (Text.terminated ((Text.lines faulty).take 3)))
            = .ok actions
          ∨ History.ofBytes (Action.bytesOf
              (Text.terminated ((Text.lines faulty).take 3) ++ "end\n".toList))
            = .ok actions := by
  have hread : Action.readAll faulty
      = .error (.malformed 4 (.badBool "maybe".toList)) := rfl
  rw [← History.ofBytes_bytesOf] at hread
  rcases first_bad_line hread with ⟨-, -, hsame, hlog⟩ | ⟨hfault, -, -⟩
  · exact ⟨hread, hsame, hlog⟩
  · cases hfault

end Darkroom
