import Darkroom.Proofs.Action.Values

/-!
# Records read back

An action is a block of records. The first record opens the block with everything but the display
name and the parameters, and each of the records that follow adds one of these. Since no record
holds a newline or a carriage return, the lines of a log are exactly the records that were written
(`readLines_records`). Setting the parameters anew changes nothing unless a key stands twice among
them (`settled_of_distinct`).
-/

namespace Darkroom

namespace Action

/-! ## Keys -/

/-- No key is set twice. Keys are set one after the other, so every action is like this unless it
was read from JSON, where a key may stand twice. -/
def DistinctNames (a : Action) : Prop :=
  (a.parameters.map (·.name)).Nodup

instance (a : Action) : Decidable a.DistinctNames :=
  inferInstanceAs (Decidable (a.parameters.map (·.name)).Nodup)

theorem find?_of_mem {key : String} {value : ParamValue} : ∀ {ps : List Parameter},
    (ps.map (·.name)).Nodup → ⟨key, value⟩ ∈ ps → ps.find? (·.name = key) = some ⟨key, value⟩
  | p :: ps, hnodup, hmem => by
      rw [List.map_cons, List.nodup_cons] at hnodup
      rcases List.mem_cons.mp hmem with rfl | hps
      · exact List.find?_cons_of_pos (decide_eq_true rfl)
      · have hp : p.name ≠ key := fun hname =>
          hnodup.1 (hname ▸ List.mem_map_of_mem (f := Parameter.name) hps)
        rw [List.find?_cons_of_neg (by simpa using hp)]
        exact find?_of_mem hnodup.2 hps

/-- Sets parameters, first to last. A reader does this with the lines of a block. -/
def addAll (a : Action) (parameters : List Parameter) : Action :=
  parameters.foldl (fun a p => a.add p.name p.value) a

theorem setIn_of_notMem {key : String} {value : ParamValue} : ∀ {ps : List Parameter},
    key ∉ ps.map (·.name) → setIn key value ps = ps ++ [⟨key, value⟩]
  | [], _ => rfl
  | p :: ps, h => by
      rw [List.map_cons, List.mem_cons, not_or] at h
      rw [setIn, if_neg (Ne.symm h.1), setIn_of_notMem h.2, List.cons_append]

/-- Setting a key keeps the keys in their order; a new one comes last. -/
theorem names_setIn {key : String} {value : ParamValue} : ∀ ps : List Parameter,
    (setIn key value ps).map (·.name)
      = if key ∈ ps.map (·.name) then ps.map (·.name) else ps.map (·.name) ++ [key]
  | [] => rfl
  | p :: ps => by
      rw [setIn]
      by_cases hp : p.name = key
      · simp [hp]
      · rw [if_neg hp, List.map_cons, names_setIn ps]
        by_cases hmem : key ∈ ps.map (·.name) <;> simp [hmem, Ne.symm hp]

theorem DistinctNames.add {a : Action} (h : a.DistinctNames) (key : String)
    (value : ParamValue) : (a.add key value).DistinctNames := by
  rw [DistinctNames, Action.add, names_setIn]
  split
  · exact h
  · rename_i hmem
    exact List.nodup_append.mpr ⟨h, List.pairwise_singleton _ key, by
      rintro name hname other hother rfl
      rw [List.mem_singleton] at hother
      exact hmem (hother ▸ hname)⟩

theorem DistinctNames.addAll : ∀ {a : Action} (_ : a.DistinctNames) (ps : List Parameter),
    (a.addAll ps).DistinctNames
  | _, h, [] => h
  | _, h, p :: ps => DistinctNames.addAll (h.add p.name p.value) ps

theorem addAll_of_distinct : ∀ {ps : List Parameter} {a : Action},
    ((a.parameters ++ ps).map (·.name)).Nodup →
      a.addAll ps = { a with parameters := a.parameters ++ ps }
  | [], a, _ => by rw [List.append_nil]; rfl
  | p :: ps, a, h => by
      have hp : p.name ∉ a.parameters.map (·.name) := by
        rw [List.map_append, List.nodup_append] at h
        exact fun hmem => h.2.2 _ hmem p.name (by simp) rfl
      have hadd : a.add p.name p.value = { a with parameters := a.parameters ++ [p] } := by
        rw [add, setIn_of_notMem hp]
      have hrest : ((a.parameters ++ [p] ++ ps).map (·.name)).Nodup := by
        rwa [List.append_assoc, List.singleton_append]
      rw [addAll, List.foldl_cons, ← addAll, hadd, addAll_of_distinct hrest, List.append_assoc,
        List.singleton_append]

/-- An action with its parameters set anew, first to last. This is what is left of an action that is
written and read: a reader adds what it finds, so of a key that stands twice the last value is kept,
at the first place. -/
def settled (a : Action) : Action :=
  addAll { a with parameters := [] } a.parameters

theorem settled_of_distinct {a : Action} (h : a.DistinctNames) : a.settled = a := by
  have hnames : (([] ++ a.parameters).map Parameter.name).Nodup := h
  rw [settled, addAll_of_distinct hnames]
  rfl

/-! ## The records of a block -/

def opening (a : Action) : List Char :=
  "action ".toList ++ Text.Percent.encode a.identifier.toList
    ++ ' ' :: Text.Integer.write a.version.toInt ++ ' ' :: a.category.word.toList

def naming (a : Action) : List (List Char) :=
  match a.displayName with
  | none => []
  | some name => ["name ".toList ++ Text.Percent.encode name.toList]

theorem opening_eq (a : Action) :
    a.opening = "action".toList ++ ' ' :: (Text.Percent.encode a.identifier.toList
      ++ ' ' :: (Text.Integer.write a.version.toInt ++ ' ' :: a.category.word.toList)) := by
  have hword : "action ".toList = "action".toList ++ [' '] := by decide
  unfold opening
  rw [hword]
  simp only [List.append_assoc, List.cons_append, List.nil_append]

theorem naming_eq (name : String) :
    "name ".toList ++ Text.Percent.encode name.toList
      = "name".toList ++ ' ' :: Text.Percent.encode name.toList := by
  have hword : "name ".toList = "name".toList ++ [' '] := by decide
  rw [hword, List.append_assoc, List.singleton_append]

theorem writeParameter_eq (p : Parameter) :
    writeParameter p = "param".toList ++ ' ' :: (Text.Percent.encode p.name.toList
      ++ ' ' :: (p.value.kind.toList ++ ' ' :: p.value.write)) := by
  have hword : "param ".toList = "param".toList ++ [' '] := by decide
  unfold writeParameter
  rw [hword]
  simp only [List.append_assoc, List.cons_append, List.nil_append]

theorem records_eq (a : Action) :
    a.records = a.opening :: (a.naming ++ a.parameters.map writeParameter ++ ["end".toList]) :=
  rfl

section Blanks

variable {c : Char} (h : Text.isBlank c)
include h

theorem notMem_word (category : Category) : c ∉ category.word.toList := by
  cases category with
  | reproducible => exact ParamValue.notMem_of_letters h (by decide)
  | complex => exact ParamValue.notMem_of_letters h (by decide)
  | documented => exact ParamValue.notMem_of_letters h (by decide)

variable (hspace : c ≠ ' ')
include hspace

theorem notMem_opening (a : Action) : c ∉ a.opening := by
  have hword : c ∉ "action".toList := ParamValue.notMem_of_letters h (by decide)
  have hidentifier : c ∉ Text.Percent.encode a.identifier.toList := ParamValue.notMem_encode h
  have hversion : c ∉ Text.Integer.write a.version.toInt := ParamValue.notMem_writeInt h
  have hcategory := notMem_word h a.category
  rw [opening_eq]
  simp only [List.mem_append, List.mem_cons, not_or]
  exact ⟨hword, hspace, hidentifier, hspace, hversion, hspace, hcategory⟩

theorem notMem_naming (a : Action) : ∀ record ∈ a.naming, c ∉ record := by
  intro record hrecord
  rw [naming] at hrecord
  split at hrecord
  · cases hrecord
  · rename_i name _
    have hword : c ∉ "name".toList := ParamValue.notMem_of_letters h (by decide)
    have hname : c ∉ Text.Percent.encode name.toList := ParamValue.notMem_encode h
    rw [List.mem_singleton.mp hrecord, naming_eq]
    simp only [List.mem_append, List.mem_cons, not_or]
    exact ⟨hword, hspace, hname⟩

theorem notMem_writeParameter (p : Parameter) : c ∉ writeParameter p := by
  have hword : c ∉ "param".toList := ParamValue.notMem_of_letters h (by decide)
  have hname : c ∉ Text.Percent.encode p.name.toList := ParamValue.notMem_encode h
  have hkind := ParamValue.notMem_kind h p.value
  have hvalue := ParamValue.notMem_write h p.value
  rw [writeParameter_eq]
  simp only [List.mem_append, List.mem_cons, not_or]
  exact ⟨hword, hspace, hname, hspace, hkind, hspace, hvalue⟩

/-- The only blank in a record is the space. -/
theorem notMem_record (a : Action) : ∀ record ∈ a.records, c ∉ record := by
  intro record hrecord
  rw [records_eq, List.mem_cons, List.mem_append, List.mem_append] at hrecord
  rcases hrecord with hopening | (hname | hparameter) | hend
  · rw [hopening]
    exact notMem_opening h hspace a
  · exact notMem_naming h hspace a record hname
  · obtain ⟨p, -, rfl⟩ := List.mem_map.mp hparameter
    exact notMem_writeParameter h hspace p
  · rw [List.mem_singleton.mp hend]
    exact ParamValue.notMem_of_letters h (by decide)

end Blanks

end Action

namespace LogState

/-! ## One record -/

/-- A line that begins with a word and a space is the record of that word. -/
theorem readLine_append (s : LogState) {word fields : List Char} (hword : word ≠ [])
    (hspace : ' ' ∉ word) (hreturn : '\r' ∉ word ++ ' ' :: fields) :
    s.readLine (word ++ ' ' :: fields) = s.readRecord word fields := by
  rw [readLine, Text.trimReturns_of_notMem hreturn]
  simp only
  rw [if_neg (by simp [hword]), Text.splitOnce_append fields hspace]
  rfl

theorem ofWord?_word (c : Category) : Category.ofWord? c.word.toList = some c := by
  cases c <;> decide

theorem openBlock_fields (a : Action) :
    openBlock (Text.Percent.encode a.identifier.toList
        ++ ' ' :: (Text.Integer.write a.version.toInt ++ ' ' :: a.category.word.toList))
      = .ok { Action.new a.identifier a.version with category := a.category } := by
  have hspace : Text.isBlank ' ' := by decide
  rw [openBlock, Text.splitOn_append _ (ParamValue.notMem_encode hspace),
    Text.splitOn_append _ (ParamValue.notMem_writeInt hspace),
    Text.splitOn_of_notMem (Action.notMem_word hspace _)]
  simp only [ParamValue.readEscaped_encode, Text.Integer.readInt32_write, ofWord?_word]
  rfl

theorem addParameter_fields (a : Action) (p : Parameter) :
    addParameter a (Text.Percent.encode p.name.toList
        ++ ' ' :: (p.value.kind.toList ++ ' ' :: p.value.write))
      = .ok (a.add p.name p.value) := by
  have hspace : Text.isBlank ' ' := by decide
  rw [addParameter, Text.splitOnce_append _ (ParamValue.notMem_encode hspace)]
  simp only
  rw [Text.splitOnce_append _ (ParamValue.notMem_kind hspace p.value)]
  simp only [ParamValue.readEscaped_encode, ParamValue.read_write]
  rfl

theorem readLine_opening (done : List Action) (a : Action) :
    readLine ⟨done, none⟩ a.opening
      = .ok ⟨done, some { Action.new a.identifier a.version with category := a.category }⟩ := by
  have hreturn : '\r' ∉ a.opening := Action.notMem_opening (by decide) (by decide) a
  rw [Action.opening_eq] at hreturn ⊢
  rw [readLine_append _ (by decide) (by decide) hreturn, readRecord]
  simp only [if_true, openBlock_fields]
  rfl

theorem readLines_naming (done : List Action) (a b : Action) (hname : b.displayName = none)
    (n : Nat) :
    readLines ⟨done, some b⟩ n a.naming
      = .ok ⟨done, some { b with displayName := a.displayName }⟩ := by
  have hreturn := Action.notMem_naming (c := '\r') (by decide) (by decide) a
  rw [Action.naming] at hreturn ⊢
  split
  · rename_i hnone
    rw [hnone, ← hname]
    rfl
  · rename_i name hsome
    rw [hsome] at hreturn
    have hrecord := hreturn _ List.mem_cons_self
    rw [Action.naming_eq] at hrecord
    have hread : readLine ⟨done, some b⟩ ("name".toList ++ ' ' :: Text.Percent.encode name.toList)
        = .ok ⟨done, some { b with displayName := some name }⟩ := by
      rw [readLine_append _ (by decide) (by decide) hrecord, readRecord]
      simp only [if_true, ParamValue.readEscaped_encode]
      rfl
    rw [Action.naming_eq, readLines, hread, hsome]
    rfl

theorem readLine_writeParameter (done : List Action) (a : Action) (p : Parameter) :
    readLine ⟨done, some a⟩ (Action.writeParameter p)
      = .ok ⟨done, some (a.add p.name p.value)⟩ := by
  have hreturn : '\r' ∉ Action.writeParameter p :=
    Action.notMem_writeParameter (by decide) (by decide) p
  have hword : "param".toList ≠ "name".toList := by decide
  rw [Action.writeParameter_eq] at hreturn ⊢
  rw [readLine_append _ (by decide) (by decide) hreturn, readRecord]
  simp only [if_neg hword, if_true, addParameter_fields]
  rfl

theorem readLine_end (done : List Action) (a : Action) :
    readLine ⟨done, some a⟩ "end".toList = .ok ⟨a :: done, none⟩ := by
  rfl

/-! ## All records -/

theorem readLines_append {ls others : List (List Char)} : ∀ {s s' : LogState} {n : Nat},
    s.readLines n ls = .ok s' → s.readLines n (ls ++ others) = s'.readLines (n + ls.length) others
    := by
  induction ls with
  | nil =>
      intro s s' n h
      rw [readLines] at h
      cases h
      rfl
  | cons l ls ih =>
      intro s s' n h
      rw [List.cons_append, readLines]
      rw [readLines] at h
      cases hline : s.readLine l with
      | error fault =>
          rw [hline] at h
          cases h
      | ok next =>
          rw [hline] at h
          simp only at h ⊢
          rw [ih h, List.length_cons, Nat.add_right_comm, Nat.add_assoc]

theorem readLines_parameters (done : List Action) : ∀ (ps : List Parameter) (a : Action) (n : Nat),
    readLines ⟨done, some a⟩ n (ps.map Action.writeParameter) = .ok ⟨done, some (a.addAll ps)⟩
  | [], _, _ => rfl
  | p :: ps, a, n => by
      rw [List.map_cons, readLines, readLine_writeParameter]
      exact readLines_parameters done ps (a.add p.name p.value) (n + 1)

/-- The records of an action are read as that action with its parameters set anew, whatever has been
read before. -/
theorem readLines_records_settled (done : List Action) (a : Action) (n : Nat) :
    readLines ⟨done, none⟩ n a.records = .ok ⟨a.settled :: done, none⟩ := by
  have hblock : ∀ n, readLines ⟨done, some { Action.new a.identifier a.version with
      category := a.category }⟩ n (a.naming ++ a.parameters.map Action.writeParameter)
        = .ok ⟨done, some a.settled⟩ := by
    intro n
    rw [readLines_append (readLines_naming done a _ rfl n), readLines_parameters]
    rfl
  rw [Action.records_eq, readLines, readLine_opening]
  simp only
  rw [readLines_append (hblock _), readLines, readLine_end]
  rfl

theorem readLines_records {a : Action} (h : a.DistinctNames) (done : List Action) (n : Nat) :
    readLines ⟨done, none⟩ n a.records = .ok ⟨a :: done, none⟩ := by
  rw [readLines_records_settled, Action.settled_of_distinct h]

end LogState

end Darkroom
