import Darkroom.History.Basic
import Darkroom.Proofs.Action.Records

/-!
# The log reads back

The blocks of a log are read one after the other, each from a state in which no block is open to
the next such state. So a stored action is read as that action and a stored history as that history,
whatever texts and values they hold (`log_round_trip`). What is asked of an action is that no key is
set twice; setting parameters one by one never does that.
-/

namespace Darkroom

namespace Action

theorem writeAll_eq : ∀ h : List Action, writeAll h = Text.terminated (h.flatMap records)
  | [] => rfl
  | a :: h => by
      rw [List.flatMap_cons, Text.terminated_append, ← writeAll_eq h]
      rfl

theorem notMem_records (h : List Action) : ∀ record ∈ h.flatMap records, '\n' ∉ record := by
  intro record hrecord
  obtain ⟨a, -, ha⟩ := List.mem_flatMap.mp hrecord
  exact notMem_record (by decide) (by decide) a record ha

/-- The lines of a log are the records that were written. -/
theorem lines_writeAll (h : List Action) : Text.lines (writeAll h) = h.flatMap records := by
  rw [writeAll_eq, Text.lines_terminated (notMem_records h)]

theorem readLines_writeAll : ∀ (h done : List Action) (n : Nat),
    LogState.readLines ⟨done, none⟩ n (h.flatMap records)
      = .ok ⟨(h.map settled).reverse ++ done, none⟩
  | [], _, _ => rfl
  | a :: h, done, n => by
      rw [List.flatMap_cons,
        LogState.readLines_append (LogState.readLines_records_settled done a n),
        readLines_writeAll h, List.map_cons, List.reverse_cons, List.append_assoc,
        List.singleton_append]

theorem readAll_writeAll (h : List Action) : readAll (writeAll h) = .ok (h.map settled) := by
  rw [readAll]
  simp only [lines_writeAll, LogState.start, readLines_writeAll, List.append_nil,
    List.reverse_reverse]

theorem read_write (a : Action) : read a.write = .ok a.settled := by
  have hone : writeAll [a] = a.write := List.flatMap_singleton write a
  rw [read, ← hone, readAll_writeAll]
  rfl

/-- A stored action is read with its parameters set anew. -/
theorem ofBytes_toBytes_settled (a : Action) : ofBytes a.toBytes = .ok a.settled := by
  rw [ofBytes, toBytes, textOf_bytesOf]
  exact read_write a

theorem ofBytes_toBytes {a : Action} (h : a.DistinctNames) : ofBytes a.toBytes = .ok a := by
  rw [ofBytes_toBytes_settled, settled_of_distinct h]

end Action

theorem History.ofBytes_toBytes {h : History} (hdistinct : ∀ a ∈ h, a.DistinctNames) :
    ofBytes (toBytes h) = .ok h := by
  have hsettled : h.map Action.settled = h :=
    (List.map_congr_left fun a ha => Action.settled_of_distinct (hdistinct a ha)).trans
      (List.map_id h)
  rw [ofBytes, toBytes, Action.textOf_bytesOf]
  exact (Action.readAll_writeAll h).trans (congrArg Except.ok hsettled)

/-- A stored action and a stored history are read as they were, if no key is set twice; and no key is
set twice by setting parameters one after the other. -/
theorem log_round_trip :
    (∀ a : Action, a.DistinctNames → Action.ofBytes a.toBytes = .ok a)
      ∧ (∀ h : History, (∀ a ∈ h, a.DistinctNames) → History.ofBytes (History.toBytes h) = .ok h)
      ∧ ∀ (a : Action) (ps : List Parameter), a.parameters = [] → (a.addAll ps).DistinctNames := by
  refine ⟨fun a => Action.ofBytes_toBytes, fun h => History.ofBytes_toBytes, fun a ps hnone => ?_⟩
  have hdistinct : a.DistinctNames := by
    rw [Action.DistinctNames, hnone]
    exact List.nodup_nil
  exact hdistinct.addAll ps

/-- An action whose texts are full of separators. It has an empty display name, an empty key and
empty lists, all of which have to be told from nothing. -/
def awkward : Action :=
  ⟨"end\n% ;,", -1, .complex, some "",
    [⟨"", .string " \r\n\t"⟩, ⟨"a b", .double (0.0 / 0.0)⟩, ⟨"é", .points [⟨-1, 2⟩, ⟨3, -4⟩]⟩,
      ⟨"c", .blob []⟩, ⟨"d", .rects []⟩]⟩

theorem log_round_trip_awkward :
    Action.ofBytes awkward.toBytes = .ok awkward
      ∧ History.ofBytes (History.toBytes [awkward, awkward]) = .ok [awkward, awkward]
      ∧ (Action.addAll ⟨"", 0, .complex, none, []⟩ awkward.parameters).DistinctNames :=
  ⟨log_round_trip.1 awkward (by decide),
    log_round_trip.2.1 [awkward, awkward] (by decide),
    log_round_trip.2.2 ⟨"", 0, .complex, none, []⟩ awkward.parameters rfl⟩

end Darkroom
