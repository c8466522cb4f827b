import Darkroom.Proofs.Action.RoundTrip

/-!
# Logs can be appended to

What a line does depends on the open block only. The actions that are complete are carried along
(`readLine_after`), and the number of a line is only ever cited, so lines are read behind other lines
as they are read by themselves, with the numbers moved (`readLines_after`). A text that ends with a
newline ends its last line, and if it is a log it leaves no block open; so a text behind it is read
from where a reading starts (`readAll_append`).
-/

namespace Darkroom

namespace Text

theorem lines_ne_nil : ∀ {text : List Char}, text ≠ [] → lines text ≠ []
  | c :: rest, _ => by
      rw [lines]
      split
      · exact List.cons_ne_nil _ _
      · split
        · exact List.cons_ne_nil _ _
        · exact List.cons_ne_nil _ _

/-- Whether a text has no line that goes on behind it. What is appended to a text without its last
newline begins with the rest of a line. -/
def Ended (text : List Char) : Prop :=
  text = [] ∨ text.getLast? = some '\n'

theorem Ended.tail {c : Char} {rest : List Char} (h : Ended (c :: rest)) : Ended rest := by
  cases rest with
  | nil => exact Or.inl rfl
  | cons d rest =>
      rcases h with h | h
      · cases h
      · rw [List.getLast?_cons_cons] at h
        exact Or.inr h

/-- Lines do not depend on what stood before, if it is ended. The case to look at is a character that
begins a line: the line goes on in the rest of the first text, which is not empty. -/
theorem lines_append_of_ended : ∀ {first : List Char} (second : List Char), Ended first →
    lines (first ++ second) = lines first ++ lines second
  | [], _, _ => rfl
  | c :: rest, second, h => by
      have hrest := lines_append_of_ended second h.tail
      rw [List.cons_append, lines, lines, hrest]
      by_cases hc : c = '\n'
      · rw [if_pos hc, if_pos hc, List.cons_append]
      · have hne : rest ≠ [] := by
          rintro rfl
          rcases h with h | h
          · cases h
          · exact hc (Option.some.inj h)
        rw [if_neg hc, if_neg hc]
        cases hlines : lines rest with
        | nil => exact absurd hlines (lines_ne_nil hne)
        | cons line others => rfl

end Text

/-- The same error, a number of lines further on. Only malformed lines are cited by number; the two
faults of a whole text have no place that could move. -/
def LogError.further (lines : Nat) : LogError → LogError
  | malformed line fault => malformed (line + lines) fault
  | notUtf8 => notUtf8
  | empty => empty

namespace LogState

/-- What has been read, when other actions had been read before. Actions that are complete are never
looked at again, so a reading commutes with this, and the open block says all that is left to
compare. -/
def after (done : List Action) (s : LogState) : LogState :=
  ⟨s.done ++ done, s.block⟩

theorem readRecord_after (done : List Action) (s : LogState) (word fields : List Char) :
    (s.after done).readRecord word fields = (s.readRecord word fields).map (after done) := by
  obtain ⟨earlier, block⟩ := s
  unfold readRecord after
  cases block with
  | none =>
      dsimp only
      split
      · cases openBlock fields <;> rfl
      · rfl
  | some action =>
      dsimp only
      split
      · cases ParamValue.readEscaped fields <;> rfl
      · split
        · cases addParameter action fields <;> rfl
        · split <;> rfl

theorem readLine_after (done : List Action) (s : LogState) (line : List Char) :
    (s.after done).readLine line = (s.readLine line).map (after done) := by
  unfold readLine
  dsimp only
  split
  · rfl
  · exact readRecord_after done s _ _

theorem readLines_after (done : List Action) (k : Nat) : ∀ (ls : List (List Char)) (s : LogState)
    (n : Nat), (s.after done).readLines (n + k) ls
      = ((s.readLines n ls).map (after done)).mapError (LogError.further k)
  | [], _, _ => rfl
  | line :: rest, s, n => by
      rw [readLines, readLines, readLine_after]
      cases s.readLine line with
      | error fault => rfl
      | ok next =>
          have hrest := readLines_after done k rest next (n + 1)
          rw [Nat.add_right_comm] at hrest
          exact hrest

end LogState

namespace Action

/-- A text that is read as a log was read to its end with no block open. -/
theorem readLines_of_readAll {text : List Char} {actions : List Action}
    (h : readAll text = .ok actions) :
    LogState.start.readLines 1 (Text.lines text) = .ok ⟨actions.reverse, none⟩ := by
  rw [readAll] at h
  cases hread : LogState.start.readLines 1 (Text.lines text) with
  | error e =>
      rw [hread] at h
      cases h
  | ok s =>
      obtain ⟨done, block⟩ := s
      rw [hread] at h
      cases block with
      | some action => cases h
      | none =>
          obtain rfl : done.reverse = actions := Except.ok.inj h
          rw [List.reverse_reverse]

/-- Behind a log a text is read as by itself: its actions follow those of the log, and its errors are
further on by the lines of the log. -/
theorem readAll_append {first : List Char} {actions : List Action} (hended : Text.Ended first)
    (hfirst : readAll first = .ok actions) (second : List Char) :
    readAll (first ++ second)
      = ((readAll second).map (actions ++ ·)).mapError (.further (Text.lines first).length) := by
  have hlines : LogState.start.readLines 1 (Text.lines first ++ Text.lines second)
      = LogState.readLines ⟨actions.reverse, none⟩ (1 + (Text.lines first).length)
        (Text.lines second) :=
    LogState.readLines_append (readLines_of_readAll hfirst)
  have hafter := LogState.readLines_after actions.reverse (Text.lines first).length
    (Text.lines second) .start 1
  have hlength : (Text.lines first ++ Text.lines second).length
      = (Text.lines second).length + (Text.lines first).length := by
    rw [List.length_append, Nat.add_comm]
  have hstart : LogState.start.after actions.reverse = ⟨actions.reverse, none⟩ := rfl
  rw [hstart] at hafter
  rw [readAll, readAll, Text.lines_append_of_ended second hended, hlines, hafter,
    hlength]
  cases LogState.start.readLines 1 (Text.lines second) with
  | error e => rfl
  | ok s =>
      obtain ⟨done, block⟩ := s
      cases block with
      | some action => rfl
      | none =>
          have hdone : (done ++ actions.reverse).reverse = actions ++ done.reverse := by
            rw [List.reverse_append, List.reverse_reverse]
          exact congrArg Except.ok hdone

end Action

theorem History.ofBytes_bytesOf (text : List Char) :
    ofBytes (Action.bytesOf text) = Action.readAll text := by
  rw [ofBytes, Action.textOf_bytesOf]
  rfl

/-- A log that is empty or ends with a newline may be appended to. If what is appended is a log, both
together are the log of all actions; if a line of it is bad, the same is wrong with the whole, at a
line that is further on by the lines of the first log. -/
theorem append_log {first : List Char} {actions : History}
    (hended : first = [] ∨ first.getLast? = some '\n')
    (hfirst : History.ofBytes (Action.bytesOf first) = .ok actions) (second : List Char) :
    (∀ others, History.ofBytes (Action.bytesOf second) = .ok others →
        History.ofBytes (Action.bytesOf first ++ Action.bytesOf second) = .ok (actions ++ others))
      ∧ ∀ line fault, History.ofBytes (Action.bytesOf second) = .error (.malformed line fault) →
        History.ofBytes (Action.bytesOf first ++ Action.bytesOf second)
          = .error (.malformed (line + (Text.lines first).length) fault) := by
  rw [History.ofBytes_bytesOf] at hfirst
  rw [← Action.bytesOf_append, History.ofBytes_bytesOf, History.ofBytes_bytesOf,
    Action.readAll_append hended hfirst second]
  refine ⟨fun others hothers => ?_, fun line fault hfault => ?_⟩
  · rw [hothers]
    rfl
  · rw [hfault]
    rfl

/-- Two actions, the first of them between blank lines, so that more lines than records are
counted. -/
def blankLines : List Char :=
  "\r\naction a 1 complex\r\nend\r\n\n\naction b 2 documented\nend\n".toList

def unclosed : List Char :=
  "\naction c 3 reproducible\nparam k int 1\n\r".toList

theorem append_log_unclosed :
    blankLines.getLast? = some '\n'
      ∧ (∃ actions, History.ofBytes (Action.bytesOf blankLines) = .ok actions
        ∧ actions.length = 2)
      ∧ History.ofBytes (Action.bytesOf unclosed) = .error (.malformed 4 .openBlock)
      ∧ History.ofBytes (Action.bytesOf blankLines ++ Action.bytesOf unclosed)
        = .error (.malformed 11 .openBlock) := by
  have hlast : blankLines.getLast? = some '\n' := by decide
  have hread : ∃ actions, Action.readAll blankLines = .ok actions ∧ actions.length = 2 :=
    ⟨_, rfl, rfl⟩
  have hsecond : Action.readAll unclosed = .error (.malformed 4 .openBlock) := rfl
  obtain ⟨actions, hfirst, hlength⟩ := hread
  rw [← History.ofBytes_bytesOf] at hfirst hsecond
  obtain ⟨-, hbad⟩ := append_log (Or.inr hlast) hfirst unclosed
  exact ⟨hlast, ⟨actions, hfirst, hlength⟩, hsecond, hbad _ _ hsecond⟩

end Darkroom
