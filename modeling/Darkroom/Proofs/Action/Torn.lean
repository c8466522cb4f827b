import Darkroom.Proofs.Action.RoundTrip

/-!
# Torn logs

A log may be cut off anywhere: in a character, in an escape, in a number, between two records. What
is left reads as the complete blocks at its beginning or not at all (`torn_log`). The reason is the
record `end`: once a block is open, a line that is not that record leaves the block open or is a
fault (`readLine_inner`), and a block that is open at the end of the text is a fault too. So however
a shortened record reads, nothing that follows the last complete block is taken for an action.
-/

namespace Darkroom

namespace LogState

/-! ## Open blocks -/

/-- The reading does not come to an end between two blocks: it fails, or a block is open. Both are
refused if the text ends here. -/
def Stuck (r : Except LogError LogState) : Prop :=
  ∀ s, r = .ok s → s.block ≠ none

/-- A line that does not close a block. The records between the first and the last of a block stay
like this when they are torn, as none of their keywords begins with `end`. -/
def Inner (line : List Char) : Prop :=
  '\r' ∉ line ∧ (Text.splitOnce ' ' line).1 ≠ "end".toList

theorem exists_of_map_eq {ε α β : Type} {r : Except ε α} {f : α → β} {b : β}
    (h : r.map f = .ok b) : ∃ a, r = .ok a ∧ f a = b := by
  cases r with
  | error e => cases h
  | ok a => exact ⟨a, rfl, Except.ok.inj h⟩

theorem inner_of_head {line : List Char} (hreturn : '\r' ∉ line)
    (hhead : line.head? ≠ some 'e') : Inner line := by
  refine ⟨hreturn, ?_⟩
  cases line with
  | nil => decide
  | cons c rest =>
      intro hword
      have hword : (Text.splitOnce ' ' (c :: rest)).1 = 'e' :: "nd".toList := hword
      rw [Text.splitOnce] at hword
      split at hword
      · cases hword
      · exact hhead (congrArg some (List.cons.inj hword).1)

/-- Outside of a block every line that is not empty opens one or is a fault. -/
theorem readLine_closed {s s' : LogState} {line : List Char} (hs : s.block = none)
    (hreturn : '\r' ∉ line) (hne : line ≠ []) (h : s.readLine line = .ok s') :
    s'.block ≠ none := by
  rw [readLine, Text.trimReturns_of_notMem hreturn] at h
  simp only at h
  rw [if_neg (by simpa using hne), readRecord, hs] at h
  simp only at h
  split at h
  · obtain ⟨action, -, rfl⟩ := exists_of_map_eq h
    exact Option.some_ne_none action
  · cases h

/-- Inside of a block only the record `end` closes it. -/
theorem readLine_inner {s s' : LogState} {line : List Char} (hs : s.block ≠ none)
    (hline : Inner line) (h : s.readLine line = .ok s') : s'.block ≠ none := by
  obtain ⟨action, haction⟩ := Option.ne_none_iff_exists'.mp hs
  rw [readLine, Text.trimReturns_of_notMem hline.1] at h
  simp only at h
  split at h
  · cases h
    exact hs
  · rw [readRecord, haction] at h
    simp only at h
    split at h
    · obtain ⟨name, -, rfl⟩ := exists_of_map_eq h
      exact Option.some_ne_none _
    · split at h
      · obtain ⟨next, -, rfl⟩ := exists_of_map_eq h
        exact Option.some_ne_none next
      · rw [if_neg hline.2] at h
        cases h

theorem stuck_of_inner : ∀ {ls : List (List Char)} {s : LogState} {n : Nat}, s.block ≠ none →
    (∀ l ∈ ls, Inner l) → Stuck (s.readLines n ls)
  | [], s, n, hs, _ => by
      intro s' h
      rw [readLines] at h
      cases h
      exact hs
  | l :: ls, s, n, hs, hinner => by
      intro s' h
      rw [readLines] at h
      cases hline : s.readLine l with
      | error fault =>
          rw [hline] at h
          cases h
      | ok next =>
          rw [hline] at h
          have hnext := readLine_inner hs (hinner l List.mem_cons_self) hline
          exact stuck_of_inner hnext (fun m hm => hinner m (List.mem_cons_of_mem l hm)) s' h

end LogState

namespace Action

open LogState (Stuck Inner)

/-! ## Cuts within a block -/

def body (a : Action) : List (List Char) :=
  a.naming ++ a.parameters.map writeParameter

theorem head_body {a : Action} : ∀ record ∈ a.body, record.head? ≠ some 'e' := by
  intro record hrecord
  rcases List.mem_append.mp hrecord with hname | hparameter
  · rw [naming] at hname
    split at hname
    · cases hname
    · have hword : "name ".toList = 'n' :: "ame ".toList := by decide
      rw [List.mem_singleton.mp hname, hword]
      simp
  · obtain ⟨p, -, rfl⟩ := List.mem_map.mp hparameter
    have hword : "param".toList = 'p' :: "aram".toList := by decide
    rw [writeParameter_eq, hword]
    simp

/-- What is left of a record inside a block does not close the block. -/
theorem inner_of_cut {a : Action} {record start : List Char} (hrecord : record ∈ a.body)
    (hstart : start <+: record) : Inner start := by
  have hmem : record ∈ a.records := by
    rw [records_eq]
    exact List.mem_cons_of_mem _ (List.mem_append_left _ hrecord)
  have hreturn : '\r' ∉ record := notMem_record (by decide) (by decide) a record hmem
  refine LogState.inner_of_head (fun h => hreturn (hstart.mem h)) fun hhead => ?_
  cases start with
  | nil => cases hhead
  | cons c start =>
      obtain ⟨rest, rfl⟩ := hstart
      exact head_body _ hrecord hhead

/-- What is left of the last record does not close the block unless it is the whole record. -/
theorem inner_of_cut_end {start : List Char} (hstart : start <+: "end".toList)
    (hne : start ≠ "end".toList) : Inner start := by
  have hcuts : ∀ n < 4, "end".toList.take n ≠ "end".toList →
      '\r' ∉ "end".toList.take n
        ∧ (Text.splitOnce ' ' ("end".toList.take n)).1 ≠ "end".toList := by decide
  have hlength : "end".toList.length = 3 := by decide
  have hle := hstart.length_le
  rw [List.prefix_iff_eq_take.mp hstart] at hne ⊢
  exact hcuts start.length (by omega) hne

theorem lines_cut {a : Action} {before after : List (List Char)} {line start : List Char}
    (hrecords : a.records = before ++ line :: after) (hstart : start <+: line) :
    Text.lines (Text.terminated before ++ start)
      = before ++ (if start = [] then [] else [start]) := by
  have hnewline : ∀ record ∈ before ++ line :: after, '\n' ∉ record :=
    hrecords ▸ notMem_record (by decide) (by decide) a
  have hline := hnewline line (by simp)
  rw [Text.lines_terminated_append start fun l hl => hnewline l (List.mem_append_left _ hl)]
  split
  · rename_i hnil
    rw [hnil, Text.lines]
  · rename_i hne
    rw [Text.lines_of_unterminated hne fun h => hline (hstart.mem h)]

/-- A cut behind the first record falls into the body, or into the last record. -/
theorem cut_body {body before after : List (List Char)} {line last : List Char}
    (h : before ++ line :: after = body ++ [last]) :
    (line ∈ body ∧ ∀ l ∈ before, l ∈ body) ∨ (before = body ∧ line = last ∧ after = []) := by
  rcases List.append_eq_append_iff.mp h with ⟨others, hbody, hrest⟩ | ⟨others, hbefore, hrest⟩
  · cases others with
    | nil =>
        obtain ⟨hline, hafter⟩ := List.cons.inj hrest
        rw [List.append_nil] at hbody
        exact Or.inr ⟨hbody.symm, hline, hafter⟩
    | cons other others =>
        obtain ⟨hline, -⟩ := List.cons.inj hrest
        rw [hbody, hline]
        exact Or.inl ⟨by simp, fun l hl => List.mem_append_left _ hl⟩
  · cases others with
    | nil =>
        obtain ⟨hline, hafter⟩ := List.cons.inj hrest
        rw [List.append_nil] at hbefore
        exact Or.inr ⟨hbefore, hline.symm, hafter.symm⟩
    | cons other others => simp at hrest

theorem stuck_of_opening {a : Action} {ls : List (List Char)} (h : ∀ l ∈ ls, Inner l)
    (done : List Action) (n : Nat) :
    Stuck (LogState.readLines ⟨done, none⟩ n (a.opening :: ls)) := by
  rw [LogState.readLines, LogState.readLine_opening]
  exact LogState.stuck_of_inner (Option.some_ne_none _) h

theorem stuck_of_cut_opening {a : Action} {start : List Char} (hstart : start <+: a.opening)
    (hne : start ≠ []) (done : List Action) (n : Nat) :
    Stuck (LogState.readLines ⟨done, none⟩ n [start]) := by
  have hreturn : '\r' ∉ a.opening := notMem_opening (by decide) (by decide) a
  intro s' h
  rw [LogState.readLines] at h
  split at h
  · cases h
  · rename_i next hnext
    cases h
    exact LogState.readLine_closed rfl (fun hr => hreturn (hstart.mem hr)) hne hnext

theorem inner_append_cut {ls : List (List Char)} {start : List Char} (hls : ∀ l ∈ ls, Inner l)
    (hstart : Inner start) : ∀ l ∈ ls ++ (if start = [] then [] else [start]), Inner l := by
  intro l hl
  rcases List.mem_append.mp hl with hl | hl
  · exact hls l hl
  · split at hl
    · cases hl
    · rw [List.mem_singleton.mp hl]
      exact hstart

/-- A beginning of a block is nothing, or does not come to an end, or is the block up to its last
newline. -/
theorem cut_write {a : Action} {s : List Char} (hs : s <+: a.write) (done : List Action) (n : Nat) :
    s = [] ∨ Stuck (LogState.readLines ⟨done, none⟩ n (Text.lines s))
      ∨ (Text.lines s = a.records ∧ (s = a.write ∨ s ++ ['\n'] = a.write)) := by
  rcases Text.cut_terminated hs with rfl | ⟨before, line, after, start, hrecords, hstart, rfl⟩
  · have hnewline := notMem_record (c := '\n') (by decide) (by decide) a
    exact Or.inr (Or.inr ⟨Text.lines_terminated hnewline, Or.inl rfl⟩)
  rw [lines_cut hrecords hstart]
  cases before with
  | nil =>
      obtain ⟨hline, -⟩ := List.cons.inj ((records_eq a).symm.trans hrecords)
      by_cases hnil : start = []
      · exact Or.inl (by rw [hnil]; rfl)
      · rw [if_neg hnil]
        rw [← hline] at hstart
        exact Or.inr (Or.inl (stuck_of_cut_opening hstart hnil done n))
  | cons first before =>
      obtain ⟨rfl, hrest⟩ := List.cons.inj ((records_eq a).symm.trans hrecords)
      have hbody : ∀ l ∈ a.body, Inner l := fun l hl => inner_of_cut hl List.prefix_rfl
      rcases cut_body hrest.symm with ⟨hline, hbefore⟩ | ⟨hbefore, rfl, rfl⟩
      · have hinner := inner_append_cut (fun l hl => hbody l (hbefore l hl))
          (inner_of_cut hline hstart)
        exact Or.inr (Or.inl (stuck_of_opening hinner done n))
      · by_cases hend : start = "end".toList
        · -- Only the newline of the last record is missing.
          refine Or.inr (Or.inr ⟨?_, Or.inr ?_⟩)
          · rw [if_neg (hend ▸ by decide), hend, hrecords]
          · have hlast : "end".toList ++ ['\n'] = Text.terminated ["end".toList] := rfl
            rw [hend, List.append_assoc, hlast, ← Text.terminated_append, ← hrecords]
            rfl
        · have hls : ∀ l ∈ before, Inner l := by
            rw [hbefore]
            exact hbody
          have hinner := inner_append_cut hls (inner_of_cut_end hstart hend)
          exact Or.inr (Or.inl (stuck_of_opening hinner done n))

/-! ## Cuts within a log -/

theorem error_of_stuck {s : List Char} (h : Stuck (LogState.start.readLines 1 (Text.lines s))) :
    ∃ e, readAll s = .error e := by
  cases hread : LogState.start.readLines 1 (Text.lines s) with
  | error e => exact ⟨e, by simp only [readAll, hread]⟩
  | ok last =>
      obtain ⟨action, haction⟩ := Option.ne_none_iff_exists'.mp (h last hread)
      exact ⟨.malformed (Text.lines s).length .openBlock, by simp only [readAll, hread, haction]⟩

/-- A beginning of a log does not come to an end, or is some of the blocks, perhaps without the
newline of the last record. -/
theorem cut_writeAll : ∀ {h : List Action} {s : List Char}, (∀ a ∈ h, a.DistinctNames) →
    s <+: writeAll h → ∀ (done : List Action) (n : Nat),
      Stuck (LogState.readLines ⟨done, none⟩ n (Text.lines s))
        ∨ ∃ k ≤ h.length,
            LogState.readLines ⟨done, none⟩ n (Text.lines s)
                = .ok ⟨(h.take k).reverse ++ done, none⟩
              ∧ (s = writeAll (h.take k) ∨ s ++ ['\n'] = writeAll (h.take k))
  | [], s, _, hs, done, n => by
      obtain rfl := List.prefix_nil.mp hs
      exact Or.inr ⟨0, Nat.le_refl 0, rfl, Or.inl rfl⟩
  | a :: h, s, hdistinct, hs, done, n => by
      have ha := hdistinct a List.mem_cons_self
      have hrest : ∀ b ∈ h, b.DistinctNames := fun b hb => hdistinct b (List.mem_cons_of_mem a hb)
      have hcons : writeAll (a :: h) = a.write ++ writeAll h := rfl
      have hone : writeAll [a] = a.write := List.flatMap_singleton write a
      rw [hcons] at hs
      rcases List.prefix_or_prefix_of_prefix hs (List.prefix_append a.write _) with hs | hs
      · rcases cut_write hs done n with rfl | hstuck | ⟨hlines, hend⟩
        · exact Or.inr ⟨0, Nat.zero_le _, rfl, Or.inl rfl⟩
        · exact Or.inl hstuck
        · refine Or.inr ⟨1, Nat.succ_le_succ (Nat.zero_le _), ?_, ?_⟩
          · rw [hlines, LogState.readLines_records ha]
            rfl
          · rw [List.take_succ_cons, List.take_zero, hone]
            exact hend
      · obtain ⟨s, rfl⟩ := hs
        rw [List.prefix_append_right_inj] at hs
        have hnewline := notMem_record (c := '\n') (by decide) (by decide) a
        have hlines : Text.lines (a.write ++ s) = a.records ++ Text.lines s :=
          Text.lines_terminated_append s hnewline
        rw [hlines, LogState.readLines_append (LogState.readLines_records ha done n)]
        rcases cut_writeAll hrest hs (a :: done) (n + a.records.length)
          with hstuck | ⟨k, hk, hread, hend⟩
        · exact Or.inl hstuck
        · refine Or.inr ⟨k + 1, Nat.succ_le_succ hk, ?_, ?_⟩
          · rw [hread, List.take_succ_cons, List.reverse_cons, List.append_assoc,
              List.singleton_append]
          · have htake : writeAll ((a :: h).take (k + 1)) = a.write ++ writeAll (h.take k) := rfl
            rw [htake]
            exact hend.imp (congrArg (a.write ++ ·)) fun hnewline => by
              rw [List.append_assoc, hnewline]

theorem readAll_cut {h : List Action} {s : List Char} (hdistinct : ∀ a ∈ h, a.DistinctNames)
    (hs : s <+: writeAll h) :
    (∃ e, readAll s = .error e)
      ∨ ∃ k ≤ h.length, readAll s = .ok (h.take k)
          ∧ (s = writeAll (h.take k) ∨ s ++ ['\n'] = writeAll (h.take k)) := by
  rcases cut_writeAll hdistinct hs [] 1 with hstuck | ⟨k, hk, hread, hend⟩
  · exact Or.inl (error_of_stuck hstuck)
  · refine Or.inr ⟨k, hk, ?_, hend⟩
    unfold readAll LogState.start
    simp only [hread, List.append_nil, List.reverse_reverse]

end Action

/-- What is left of a stored history, cut off anywhere, is refused or read as the actions whose
blocks are complete. Only the newline of the last of these records may be missing. -/
theorem torn_log {h : History} (hdistinct : ∀ a ∈ h, a.DistinctNames) {p : List UInt8}
    (hp : p <+: History.toBytes h) :
    (∃ e, History.ofBytes p = .error e)
      ∨ ∃ k ≤ h.length, History.ofBytes p = .ok (h.take k)
          ∧ (p = History.toBytes (h.take k) ∨ p ++ [10] = History.toBytes (h.take k)) := by
  rcases Action.textOf_cut hp with hbroken | ⟨start, hstart, rfl, htext⟩
  · exact Or.inl ⟨.notUtf8, by rw [History.ofBytes, hbroken]; rfl⟩
  have hread : History.ofBytes (Action.bytesOf start) = Action.readAll start := by
    rw [History.ofBytes, htext]
    rfl
  rw [hread]
  refine (Action.readAll_cut hdistinct hstart).imp_right ?_
  rintro ⟨k, hk, hall, hend⟩
  refine ⟨k, hk, hall, hend.imp (congrArg Action.bytesOf) fun hnewline => ?_⟩
  rw [History.toBytes, ← hnewline, Action.bytesOf_append]
  rfl

theorem torn_log_awkward :
    (∃ e, History.ofBytes ((History.toBytes [awkward, awkward]).take 200) = .error e)
      ∨ ∃ k ≤ 2, History.ofBytes ((History.toBytes [awkward, awkward]).take 200)
            = .ok ([awkward, awkward].take k)
          ∧ ((History.toBytes [awkward, awkward]).take 200
                = History.toBytes ([awkward, awkward].take k)
            ∨ (History.toBytes [awkward, awkward]).take 200 ++ [10]
                = History.toBytes ([awkward, awkward].take k)) :=
  torn_log (by decide) (List.take_prefix 200 _)

end Darkroom
