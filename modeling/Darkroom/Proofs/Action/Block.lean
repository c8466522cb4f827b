import Mathlib.Data.List.Induction
import Darkroom.Action.Block
import Darkroom.Proofs.Action.LineEndings
import Darkroom.Proofs.Action.Settled

/-!
# Parameters in the order of their setting

Parameters that are set on a new action one by one are a map with insertion order (`Action.Holds`): a key
stands where it was set first and holds what was set last. A reader of the log does the same to the
parameters of a block. It is followed record by record: inside a block a record that says something sets
it on the action that is open (`readLine_inside`), so a log that can be read is the blocks that its
records spell, and its actions are made of these blocks (`readAll_eq_ok_iff_spelled`).
-/

namespace Darkroom

namespace Action

/-! ## Insertion order -/

/-- Parameters that are the map left by setting keys one after the other: the last value of a key
counts, and keys stand where they were first set. Any later setting appends to the list of settings,
so this is kept by `add` and tells what every look-up gives. -/
structure Holds (a : Action) (settings : List Parameter) : Prop where
  distinct : a.DistinctNames
  last : ∀ (before after : List Parameter) (p : Parameter), settings = before ++ p :: after →
    p.name ∉ after.map (·.name) → a.value? p.name = some p.value
  unset : ∀ key, key ∉ settings.map (·.name) → a.value? key = none
  order : a.parameters.map (·.name) = (settings.map (·.name)).eraseDups

theorem addAll_eq (ps : List Parameter) : ∀ a : Action,
    a.addAll ps = { a with
      parameters := ps.foldl (fun qs p => setIn p.name p.value qs) a.parameters } := by
  induction ps with
  | nil => exact fun _ => rfl
  | cons p ps ih => exact fun a => ih (a.add p.name p.value)

/-- Names stand in the order in which they were set first. -/
theorem names_addAll {a : Action} (h : a.parameters = []) (ps : List Parameter) :
    (a.addAll ps).parameters.map (·.name) = (ps.map (·.name)).eraseDups := by
  induction ps using List.reverseRecOn with
  | nil =>
    rw [addAll, List.foldl_nil, h]
    rfl
  | append_singleton ps p ih =>
    have hlast : (a.addAll (ps ++ [p])).parameters
        = setIn p.name p.value (a.addAll ps).parameters := by
      rw [addAll, List.foldl_append]
      rfl
    rw [hlast, names_setIn, ih, List.map_append, List.eraseDups_append, List.map_singleton,
      List.removeAll]
    by_cases hmem : p.name ∈ ps.map (·.name)
    · rw [if_pos (List.mem_eraseDups.mpr hmem), List.filter_cons_of_neg (by simpa using hmem),
        List.filter_nil, List.eraseDups_nil, List.append_nil]
    · rw [if_neg (mt List.mem_eraseDups.mp hmem), List.filter_cons_of_pos (by simpa using hmem),
        List.filter_nil]
      rfl

/-- What is set on an action without parameters. -/
theorem holds_addAll {a : Action} (h : a.parameters = []) (ps : List Parameter) :
    (a.addAll ps).Holds ps := by
  have hdistinct : a.DistinctNames := by
    rw [DistinctNames, h]
    exact List.nodup_nil
  have hempty : ∀ key, a.value? key = none := fun key => by
    rw [value?, h]
    rfl
  refine ⟨hdistinct.addAll ps, ?_, fun key hkey => ?_, names_addAll h ps⟩
  · rintro before after p rfl hp
    have hafter : after.reverse.find? (·.name = p.name) = none := by
      refine List.find?_eq_none.mpr fun q hq hname => hp ?_
      exact of_decide_eq_true hname ▸ List.mem_map_of_mem (List.mem_reverse.mp hq)
    have hhere : (p :: before.reverse).find? (·.name = p.name) = some p :=
      List.find?_cons_of_pos (decide_eq_true rfl)
    rw [value?_addAll, List.reverse_append, List.reverse_cons, List.append_assoc,
      List.find?_append, hafter, Option.none_or, List.singleton_append, hhere]
    rfl
  · have hnone : ps.reverse.find? (·.name = key) = none := by
      refine List.find?_eq_none.mpr fun q hq hname => hkey ?_
      exact of_decide_eq_true hname ▸ List.mem_map_of_mem (List.mem_reverse.mp hq)
    rw [value?_addAll, hnone, hempty]
    rfl

example : ((new "sharpen" 1).addAll
    [⟨"radius", .int 1⟩, ⟨"fast", .bool true⟩, ⟨"radius", .int 4⟩]).parameters
      = [⟨"radius", .int 4⟩, ⟨"fast", .bool true⟩] :=
  rfl

end Action

/-! ## Records of a block -/

/-- A record as it is read: not empty, and without a carriage return at its end. These are the lines
that mean something, so what is said of blocks is said of bare records. -/
def Text.Bare (record : List Char) : Prop :=
  trimReturns record = record ∧ record ≠ []

theorem Text.bare_of_mem_records {ls : List (List Char)} {record : List Char}
    (h : record ∈ records ls) : Bare record := by
  obtain ⟨hmem, hne⟩ := List.mem_filter.mp h
  obtain ⟨line, -, rfl⟩ := List.mem_map.mp hmem
  exact ⟨trimReturns_trimReturns line, by simpa using hne⟩

namespace Block

def entered (a : Action) : BlockEntry → Action
  | .name text => { a with displayName := some text }
  | .parameter p => a.add p.name p.value

/-- Entries taken up one by one: the parameters are set, and the last name stays. -/
theorem foldl_entered (entries : List BlockEntry) : ∀ a : Action,
    entries.foldl entered a = { a.addAll (entries.filterMap BlockEntry.parameter?) with
      displayName := (entries.filterMap BlockEntry.name?).getLast?.or a.displayName } := by
  induction entries with
  | nil => exact fun _ => rfl
  | cons entry entries ih =>
    intro a
    rw [List.foldl_cons, ih]
    cases entry with
    | name text =>
      have hnames : (BlockEntry.name text :: entries).filterMap BlockEntry.name?
          = text :: entries.filterMap BlockEntry.name? := rfl
      have hparameters : (BlockEntry.name text :: entries).filterMap BlockEntry.parameter?
          = entries.filterMap BlockEntry.parameter? := rfl
      rw [hnames, hparameters, List.getLast?_cons, Action.addAll_eq, Action.addAll_eq]
      cases (entries.filterMap BlockEntry.name?).getLast? <;> rfl
    | parameter p => rfl

theorem action_eq (b : Block) :
    b.action = b.entries.foldl entered { b with entries := [] }.action := by
  rw [foldl_entered, Action.addAll_eq]
  refine (congrArg (fun a : Action => { a with
    category := b.category, displayName := b.names.getLast? }) (Action.addAll_eq b.parameters
      (Action.new b.identifier b.version))).trans ?_
  rw [← Option.or_none (o := b.names.getLast?)]
  rfl

theorem holds_action (b : Block) : b.action.Holds b.parameters :=
  have h : ((Action.new b.identifier b.version).addAll b.parameters).Holds b.parameters :=
    Action.holds_addAll rfl b.parameters
  ⟨h.distinct, h.last, h.unset, h.order⟩

theorem readLine_eq {s : LogState} {record : List Char} (h : Text.Bare record) :
    s.readLine record = s.readRecord (cut record).1 (cut record).2 := by
  rw [LogState.readLine, h.1]
  exact if_neg (by simpa using h.2)

theorem openBlock_eq (fields : List Char) :
    LogState.openBlock fields = (readHeader fields).map action := by
  rw [LogState.openBlock, readHeader]
  generalize Text.splitOn ' ' fields = words
  rcases words with _ | ⟨identifier, _ | ⟨version, _ | ⟨category, _ | ⟨word, words⟩⟩⟩⟩
  case cons.cons.cons.nil =>
    dsimp only
    cases ParamValue.readEscaped identifier with
    | error fault => rfl
    | ok name =>
      cases Text.Integer.readInt32 version with
      | error fault => rfl
      | ok v => cases Category.ofWord? category <;> rfl
  all_goals rfl

theorem addParameter_eq (a : Action) (fields : List Char) :
    LogState.addParameter a fields = (readParameter fields).map fun p => a.add p.name p.value := by
  unfold LogState.addParameter readParameter
  rcases Text.splitOnce ' ' fields with ⟨name, _ | fields⟩
  · rfl
  dsimp only
  rcases Text.splitOnce ' ' fields with ⟨kind, _ | text⟩
  · rfl
  dsimp only
  cases ParamValue.readEscaped name with
  | error fault => rfl
  | ok key => cases ParamValue.read kind text <;> rfl

/-! ## A reader, record by record -/

section

variable {done : List Action} {a : Action} {record : List Char} (h : Text.Bare record)
include h

/-- Between blocks only a record that opens one can be read. -/
theorem readLine_between :
    LogState.readLine ⟨done, none⟩ record
      = (readOpening record).map fun b => ⟨done, some b.action⟩ := by
  rw [readLine_eq h, LogState.readRecord, readOpening]
  dsimp only
  split
  · rw [openBlock_eq]
    cases readHeader (cut record).2 <;> rfl
  · rfl

/-- Inside a block a record closes the block, or it sets what it says. -/
theorem readLine_inside :
    LogState.readLine ⟨done, some a⟩ record
      = if closes record then .ok ⟨a :: done, none⟩
        else (readEntry record).map fun entry => ⟨done, some (entered a entry)⟩ := by
  rw [readLine_eq h, LogState.readRecord, readEntry, closes]
  dsimp only
  by_cases hname : (cut record).1 = "name".toList
  · have hend : (cut record).1 ≠ "end".toList := by
      rw [hname]
      decide
    rw [if_pos hname, if_pos hname, if_neg (by simpa using hend)]
    cases ParamValue.readEscaped (cut record).2 <;> rfl
  by_cases hparam : (cut record).1 = "param".toList
  · have hend : (cut record).1 ≠ "end".toList := by
      rw [hparam]
      decide
    rw [if_neg hname, if_pos hparam, if_neg hname, if_pos hparam, if_neg (by simpa using hend),
      addParameter_eq]
    cases readParameter (cut record).2 <;> rfl
  · rw [if_neg hname, if_neg hparam, if_neg hname, if_neg hparam]
    by_cases hend : (cut record).1 = "end".toList
    · rw [if_pos hend, if_pos (by simpa using hend)]
    · rw [if_neg hend, if_neg (by simpa using hend)]
      rfl

end

theorem closes_of_readEntry {record : List Char} {entry : BlockEntry}
    (h : readEntry record = .ok entry) : closes record = false := by
  rw [closes, decide_eq_false_iff_not]
  intro hend
  have hname : "end".toList ≠ "name".toList := by decide
  have hparam : "end".toList ≠ "param".toList := by decide
  rw [readEntry] at h
  dsimp only at h
  rw [hend, if_neg hname, if_neg hparam] at h
  cases h

theorem entries_of_readOpening {record : List Char} {b : Block} (h : readOpening record = .ok b) :
    b.entries = [] := by
  rw [readOpening] at h
  dsimp only at h
  split at h
  · rw [readHeader] at h
    generalize Text.splitOn ' ' (cut record).2 = words at h
    rcases words with _ | ⟨identifier, _ | ⟨version, _ | ⟨category, _ | ⟨word, words⟩⟩⟩⟩
    case cons.cons.cons.nil =>
      dsimp only at h
      cases hidentifier : ParamValue.readEscaped identifier with
      | error fault =>
        rw [hidentifier] at h
        cases h
      | ok name =>
        cases hversion : Text.Integer.readInt32 version with
        | error fault =>
          rw [hidentifier, hversion] at h
          cases h
        | ok v =>
          rw [hidentifier, hversion] at h
          cases hcategory : Category.ofWord? category with
          | none =>
            rw [hcategory] at h
            cases h
          | some c =>
            rw [hcategory] at h
            cases h
            rfl
    all_goals cases h
  · cases h

/-! ## Blocks -/

/-- The records inside a block set what they say, one after the other. -/
theorem foldlM_inside (done : List Action) : ∀ {inner : List (List Char)}
    {entries : List BlockEntry} (a : Action), (∀ record ∈ inner, Text.Bare record) →
    inner.map readEntry = entries.map .ok →
    inner.foldlM LogState.readLine ⟨done, some a⟩ = .ok ⟨done, some (entries.foldl entered a)⟩
  | [], [], _, _, _ => rfl
  | record :: inner, entry :: entries, a, hbare, hsays => by
    rw [List.map_cons, List.map_cons, List.cons.injEq] at hsays
    have hline : LogState.readLine ⟨done, some a⟩ record = .ok ⟨done, some (entered a entry)⟩ := by
      rw [readLine_inside (hbare record List.mem_cons_self), closes_of_readEntry hsays.1,
        if_neg Bool.false_ne_true, hsays.1]
      rfl
    rw [List.foldlM_cons, hline]
    exact foldlM_inside done (entered a entry)
      (fun r hr => hbare r (List.mem_cons_of_mem record hr)) hsays.2

/-- Records that spell blocks are read as the actions of these. -/
theorem Spelled.foldlM {blocks : List Block} {records : List (List Char)}
    (h : Spelled blocks records) (hbare : ∀ record ∈ records, Text.Bare record)
    (done : List Action) :
    records.foldlM LogState.readLine ⟨done, none⟩
      = .ok ⟨(blocks.map action).reverse ++ done, none⟩ := by
  induction h generalizing done with
  | nil => rfl
  | @cons b blocks opening closing inner rest hopening hinner hclosing _ ih =>
    have hopen : LogState.readLine ⟨done, none⟩ opening
        = .ok ⟨done, some { b with entries := [] }.action⟩ := by
      rw [readLine_between (hbare opening (by simp)), hopening]
      rfl
    have hclose : LogState.readLine ⟨done, some b.action⟩ closing = .ok ⟨b.action :: done, none⟩ := by
      rw [readLine_inside (hbare closing (by simp)), if_pos hclosing]
    have hinside : inner.foldlM LogState.readLine ⟨done, some { b with entries := [] }.action⟩
        = .ok ⟨done, some b.action⟩ := by
      rw [foldlM_inside done _ (fun r hr => hbare r (by simp [hr])) hinner, ← action_eq]
    have hrest := ih (fun r hr => hbare r (by simp [hr])) (b.action :: done)
    rw [List.cons_append, List.foldlM_cons, hopen, List.map_cons, List.reverse_cons,
      List.append_assoc, List.singleton_append, ← hrest]
    show (inner ++ closing :: rest).foldlM LogState.readLine _ = _
    rw [List.foldlM_append, hinside]
    show (closing :: rest).foldlM LogState.readLine _ = _
    rw [List.foldlM_cons, hclose]
    rfl

/-- Records that can be read spell blocks; if a block is open before them, they are its remaining
records and then blocks. -/
theorem spelled_of_foldlM {done' : List Action} : ∀ {records : List (List Char)},
    (∀ record ∈ records, Text.Bare record) → ∀ done : List Action,
    (records.foldlM LogState.readLine ⟨done, none⟩ = .ok ⟨done', none⟩ →
        ∃ blocks, Spelled blocks records ∧ done' = (blocks.map action).reverse ++ done)
      ∧ ∀ a, records.foldlM LogState.readLine ⟨done, some a⟩ = .ok ⟨done', none⟩ →
        ∃ (inner : List (List Char)) (entries : List BlockEntry) (closing : List Char)
          (rest : List (List Char)) (blocks : List Block), records = inner ++ closing :: rest
          ∧ inner.map readEntry = entries.map .ok ∧ closes closing ∧ Spelled blocks rest
          ∧ done' = (blocks.map action).reverse ++ entries.foldl entered a :: done
  | [], _, done => by
    refine ⟨fun h => ⟨[], .nil, ?_⟩, fun a h => ?_⟩
    · rw [List.foldlM_nil] at h
      cases h
      rfl
    · rw [List.foldlM_nil] at h
      cases h
  | record :: records, hbare, done => by
    have hrecord := hbare record List.mem_cons_self
    have hrest : ∀ r ∈ records, Text.Bare r := fun r hr => hbare r (List.mem_cons_of_mem record hr)
    refine ⟨fun h => ?_, fun a h => ?_⟩
    · rw [List.foldlM_cons, readLine_between hrecord] at h
      cases hopening : readOpening record with
      | error fault =>
        rw [hopening] at h
        cases h
      | ok b =>
        rw [hopening] at h
        obtain ⟨inner, entries, closing, rest, blocks, rfl, hinner, hclosing, hspelled, rfl⟩ :=
          (spelled_of_foldlM hrest done).2 b.action h
        have hsame : { b with entries := [] } = b := by
          rw [← entries_of_readOpening hopening]
        refine ⟨{ b with entries } :: blocks, .cons (hsame ▸ hopening) hinner hclosing hspelled, ?_⟩
        have haction : { b with entries }.action = entries.foldl entered b.action := by
          rw [action_eq]
          exact congrArg (fun b : Block => entries.foldl entered b.action) hsame
        rw [List.map_cons, List.reverse_cons, List.append_assoc, List.singleton_append, haction]
    · rw [List.foldlM_cons, readLine_inside hrecord] at h
      by_cases hclosing : closes record
      · rw [if_pos hclosing] at h
        obtain ⟨blocks, hspelled, rfl⟩ := (spelled_of_foldlM hrest (a :: done)).1 h
        exact ⟨[], [], record, records, blocks, rfl, rfl, hclosing, hspelled, rfl⟩
      · rw [if_neg hclosing] at h
        cases hentry : readEntry record with
        | error fault =>
          rw [hentry] at h
          cases h
        | ok entry =>
          rw [hentry] at h
          obtain ⟨inner, entries, closing, rest, blocks, rfl, hinner, hclosing, hspelled, rfl⟩ :=
            (spelled_of_foldlM hrest done).2 (entered a entry) h
          refine ⟨record :: inner, entry :: entries, closing, rest, blocks, rfl, ?_, hclosing,
            hspelled, rfl⟩
          rw [List.map_cons, List.map_cons, hentry, hinner]

end Block

/-- A log that can be read is the blocks that its records spell. -/
theorem Action.readAll_eq_ok_iff_spelled {text : List Char} {actions : List Action} :
    readAll text = .ok actions ↔
      ∃ blocks, Block.Spelled blocks (Text.records (Text.lines text))
        ∧ actions = blocks.map Block.action := by
  have hbare : ∀ record ∈ Text.records (Text.lines text), Text.Bare record := fun _ h =>
    Text.bare_of_mem_records h
  rw [readAll_eq_ok_iff, LogState.readLines_eq_ok_iff]
  constructor
  · intro h
    obtain ⟨blocks, hspelled, hdone⟩ := (Block.spelled_of_foldlM hbare []).1 h
    rw [List.append_nil, List.reverse_inj] at hdone
    exact ⟨blocks, hspelled, hdone⟩
  · rintro ⟨blocks, hspelled, rfl⟩
    have hread := hspelled.foldlM hbare []
    rwa [List.append_nil] at hread

/-- Octets that are a log are the form of a text, and the log is that of the text. -/
theorem History.ofBytes_eq_ok_iff {bytes : List UInt8} {actions : History} :
    ofBytes bytes = .ok actions ↔
      ∃ text, bytes = Action.bytesOf text ∧ Action.readAll text = .ok actions := by
  constructor
  · intro h
    cases htext : Text.Percent.ofUtf8? bytes with
    | none =>
      rw [ofBytes, Action.textOf, htext] at h
      cases h
    | some text =>
      rw [ofBytes, Action.textOf, htext] at h
      exact ⟨text, Text.Percent.eq_encoded_of_ofUtf8? htext, h⟩
  · rintro ⟨text, rfl, h⟩
    rw [History.ofBytes_bytesOf, h]

theorem Action.read_eq_ok_iff {text : List Char} {a : Action} :
    read text = .ok a ↔ ∃ others, readAll text = .ok (a :: others) := by
  rw [read]
  rcases readAll text with e | _ | ⟨first, others⟩ <;> simp

/-- The action of a log is the first of all. -/
theorem Action.ofBytes_eq_ok_iff_first {bytes : List UInt8} {a : Action} :
    ofBytes bytes = .ok a ↔ ∃ others, History.ofBytes bytes = .ok (a :: others) := by
  rw [ofBytes, History.ofBytes]
  cases textOf bytes with
  | error e => simp [Except.bind]
  | ok text => exact read_eq_ok_iff

/-- Parameters set one after the other on a new action are a map with insertion order, and those of an
action of a log are the same: a log is the blocks that its records spell, and the action of a block has
the parameters of the block set on a new action in the order of their records. -/
theorem parameters_insertion_ordered :
    (∀ (identifier : String) (version : Int32) (settings : List Parameter),
      ((Action.new identifier version).addAll settings).Holds settings)
    ∧ (∀ (bytes : List UInt8) (actions : History), History.ofBytes bytes = .ok actions ↔
        ∃ (text : List Char) (blocks : List Block), bytes = Action.bytesOf text
          ∧ Block.Spelled blocks (Text.records (Text.lines text))
          ∧ actions = blocks.map Block.action)
    ∧ (∀ (bytes : List UInt8) (a : Action), Action.ofBytes bytes = .ok a ↔
        ∃ others, History.ofBytes bytes = .ok (a :: others))
    ∧ ∀ b : Block,
        b.action.parameters
          = ((Action.new b.identifier b.version).addAll b.parameters).parameters
        ∧ b.action.Holds b.parameters := by
  refine ⟨fun identifier version settings => Action.holds_addAll rfl settings,
    fun bytes actions => ?_, fun bytes a => Action.ofBytes_eq_ok_iff_first,
    fun b => ⟨rfl, b.holds_action⟩⟩
  rw [History.ofBytes_eq_ok_iff]
  constructor
  · rintro ⟨text, hbytes, hread⟩
    obtain ⟨blocks, hspelled, hactions⟩ := Action.readAll_eq_ok_iff_spelled.mp hread
    exact ⟨text, blocks, hbytes, hspelled, hactions⟩
  · rintro ⟨text, blocks, hbytes, hspelled, hactions⟩
    exact ⟨text, hbytes, Action.readAll_eq_ok_iff_spelled.mpr ⟨blocks, hspelled, hactions⟩⟩

end Darkroom
