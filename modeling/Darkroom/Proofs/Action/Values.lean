import Darkroom.Proofs.Decimal.RoundTrip
import Darkroom.Proofs.Text.Lines
import Darkroom.Proofs.Text.Percent

/-!
# Values read back

The value of a parameter is the last field of its record. Each of the seven kinds has its own
form, and each form is read as the value that it was written from (`read_write`). No form holds a
blank, so a value never ends its line (`notMem_write`).
-/

namespace Darkroom.ParamValue

open Text (isBlank)

/-! ## Blanks -/

theorem not_isBlank_of_isDigit {c : Char} (h : c.isDigit) : isBlank c = false := by
  simp only [Char.isDigit, Bool.and_eq_true, decide_eq_true_eq] at h
  have hlow : 48 ≤ c.toNat := h.1
  have hhigh : c.toNat ≤ 57 := h.2
  simp [isBlank, Text.inRanges, Text.blankRanges]
  omega

theorem ne_of_isBlank {c d : Char} (hc : isBlank c) (hd : isBlank d = false) : c ≠ d := by
  rintro rfl
  rw [hd] at hc
  cases hc

/-- Words of letters hold no blank. -/
theorem notMem_of_letters {word : List Char} {c : Char} (h : isBlank c)
    (hword : word.any isBlank = false) : c ∉ word := by
  intro hmem
  have hblank : word.any isBlank := List.any_eq_true.mpr ⟨c, hmem, h⟩
  rw [hword] at hblank
  cases hblank

theorem notMem_encode {text : List Char} {c : Char} (h : isBlank c) :
    c ∉ Text.Percent.encode text :=
  Text.Percent.notMem_encode (ne_of_isBlank h (by decide)) (by simp [Text.Percent.isSpecial, h])

theorem notMem_natDigits {n : Nat} {c : Char} (h : isBlank c) :
    c ∉ Text.Integer.natDigits n := by
  intro hmem
  rw [not_isBlank_of_isDigit (Text.Integer.isDigit_of_mem_natDigits hmem)] at h
  cases h

theorem notMem_writeInt {n : Int} {c : Char} (h : isBlank c) : c ∉ Text.Integer.write n := by
  intro hmem
  rcases Text.Integer.mem_write hmem with hdigit | rfl
  · rw [not_isBlank_of_isDigit hdigit] at h
    cases h
  · exact ne_of_isBlank h (by decide) rfl

/-! ## Texts and blobs -/

theorem readEscaped_encode (s : String) :
    readEscaped (Text.Percent.encode s.toList) = .ok s := by
  rw [readEscaped, Text.Percent.decode_encode]
  exact congrArg Except.ok String.ofList_toList

theorem readPairs_lower : ∀ (bytes : List UInt8) (offset : Nat),
    readPairs offset (Text.Hex.lower bytes) = .ok bytes
  | [], _ => rfl
  | b :: bytes, offset => by
      have hcons : Text.Hex.lower (b :: bytes) = Text.Hex.lowerDigit (b.toNat / 16)
          :: Text.Hex.lowerDigit (b.toNat % 16) :: Text.Hex.lower bytes := rfl
      rw [hcons, readPairs, Text.Hex.pair?_lower]
      simp only
      rw [readPairs_lower bytes]
      rfl

/-- The digits of a blob are two octets for each octet of the blob. -/
theorem size_lower : ∀ (bytes : List UInt8) (n : Nat),
    (Text.Hex.lower bytes).foldl (fun n c => n + c.utf8Size) n = n + 2 * bytes.length
  | [], n => rfl
  | b :: bytes, n => by
      have hcons : Text.Hex.lower (b :: bytes) = Text.Hex.lowerDigit (b.toNat / 16)
          :: Text.Hex.lowerDigit (b.toNat % 16) :: Text.Hex.lower bytes := rfl
      rw [hcons, List.foldl_cons, List.foldl_cons, size_lower bytes,
        Text.Hex.utf8Size_lowerDigit _ (Text.Hex.high_lt b),
        Text.Hex.utf8Size_lowerDigit _ (Text.Hex.low_lt b), List.length_cons]
      omega

theorem readBlob_lower (bytes : List UInt8) : readBlob (Text.Hex.lower bytes) = .ok bytes := by
  rw [readBlob, size_lower, if_neg (by omega), readPairs_lower]

theorem notMem_lower {bytes : List UInt8} {c : Char} (h : isBlank c) :
    c ∉ Text.Hex.lower bytes := by
  have hdigit : ∀ n < 16, isBlank (Text.Hex.lowerDigit n) = false := by decide
  intro hmem
  obtain ⟨b, -, hc⟩ := List.mem_flatMap.mp hmem
  simp only [Text.Hex.lowerPair, List.mem_cons, List.not_mem_nil, or_false] at hc
  rcases hc with hc | hc
  · exact ne_of_isBlank h (hdigit _ (Text.Hex.high_lt b)) hc
  · exact ne_of_isBlank h (hdigit _ (Text.Hex.low_lt b)) hc

/-! ## Lists of tuples -/

theorem readCoordinates_write : ∀ numbers : List Int32,
    readCoordinates (numbers.map fun n => Text.Integer.write n.toInt) = .ok numbers
  | [] => rfl
  | n :: numbers => by
      rw [List.map_cons, readCoordinates, Text.Integer.readInt32_write]
      simp only
      rw [readCoordinates_write numbers]
      rfl

theorem notMem_coordinates {numbers : List Int32} {c : Char} (hdigit : ¬c.isDigit)
    (hminus : c ≠ '-') : ∀ text ∈ numbers.map fun n => Text.Integer.write n.toInt, c ∉ text := by
  intro text htext hc
  obtain ⟨n, -, rfl⟩ := List.mem_map.mp htext
  rcases Text.Integer.mem_write hc with h | h
  · exact hdigit h
  · exact hminus h

theorem readCoordinates_writeTuple {numbers : List Int32} (h : numbers ≠ []) :
    readCoordinates (Text.splitOn ',' (writeTuple numbers)) = .ok numbers := by
  rw [writeTuple, Text.splitOn_intercalate (by simpa using h)
    (notMem_coordinates (by decide) (by decide)), readCoordinates_write]

theorem notMem_writeTuple {numbers : List Int32} {c : Char} (hdigit : ¬c.isDigit)
    (hminus : c ≠ '-') (hcomma : c ≠ ',') : c ∉ writeTuple numbers := by
  intro hmem
  rcases Text.mem_intercalate hmem with h | ⟨text, htext, hc⟩
  · exact hcomma h
  · exact notMem_coordinates hdigit hminus text htext hc

theorem notMem_writeTuples {tuples : List (List Int32)} {c : Char} (h : isBlank c) :
    c ∉ writeTuples tuples := by
  have hdigit : ¬c.isDigit := fun hd => by
    rw [not_isBlank_of_isDigit hd] at h
    cases h
  intro hmem
  rcases Text.mem_intercalate hmem with hc | ⟨text, htext, hc⟩
  · exact ne_of_isBlank h (by decide) hc
  · obtain ⟨numbers, -, rfl⟩ := List.mem_map.mp htext
    exact notMem_writeTuple hdigit (ne_of_isBlank h (by decide)) (ne_of_isBlank h (by decide)) hc

section Tuples

variable {α : Type} {size : Nat} {make : List Int32 → Option α} (fields : α → List Int32)
  (hmake : ∀ a, make (fields a) = some a) (hfields : ∀ a, fields a ≠ [])
include hmake hfields

theorem readTuples_write : ∀ as : List α,
    readTuples size make ((as.map fields).map writeTuple) = .ok as
  | [] => rfl
  | a :: as => by
      rw [List.map_cons, List.map_cons, readTuples, readCoordinates_writeTuple (hfields a)]
      simp only [hmake]
      rw [readTuples_write as]
      rfl

omit hmake in
theorem writeTuple_ne_nil (a : α) : writeTuple (fields a) ≠ [] := by
  intro hnil
  have hread := readCoordinates_writeTuple (hfields a)
  have hempty : readCoordinates (Text.splitOn ',' []) = .error (.badCoordinate [] .empty) := rfl
  rw [hnil, hempty] at hread
  cases hread

/-- Values that are tuples of a fixed size read back; no value is written as the empty text, so
only the empty list is. -/
theorem readList_writeTuples (as : List α) :
    readList size make (writeTuples (as.map fields)) = .ok as := by
  cases as with
  | nil => rfl
  | cons a as =>
      have hsplit : Text.splitOn ';' (writeTuples ((a :: as).map fields))
          = ((a :: as).map fields).map writeTuple := by
        rw [writeTuples]
        refine Text.splitOn_intercalate (by simp) fun text htext => ?_
        obtain ⟨numbers, -, rfl⟩ := List.mem_map.mp htext
        exact notMem_writeTuple (by decide) (by decide) (by decide)
      have hne : writeTuples ((a :: as).map fields) ≠ [] := by
        intro hnil
        rw [hnil] at hsplit
        have hfirst := (List.cons.inj hsplit).1
        exact writeTuple_ne_nil fields hfields a hfirst.symm
      rw [readList, if_neg (by simpa using hne), hsplit, readTuples_write fields hmake hfields]

end Tuples

/-! ## Doubles -/

theorem notMem_positional {digits : List Char} {exp : Int} {c : Char} (h : isBlank c)
    (hdigits : c ∉ digits) : c ∉ Decimal.Format.positional digits exp := by
  have hpoint : c ≠ '.' := ne_of_isBlank h (by decide)
  have hzero : c ≠ '0' := ne_of_isBlank h (by decide)
  have htake : ∀ n, c ∉ digits.take n := fun n hmem => hdigits (List.mem_of_mem_take hmem)
  have hdrop : ∀ n, c ∉ digits.drop n := fun n hmem => hdigits (List.mem_of_mem_drop hmem)
  rw [Decimal.Format.positional]
  split
  · simp [hdigits, hpoint, hzero]
  · simp only
    split
    · simp [htake, hdrop, hpoint]
    · simp [hdigits, hpoint, hzero]

theorem notMem_scientific {format : Decimal.Format} {lead : Int} {c : Char} (h : isBlank c) :
    ∀ {digits : List Char}, c ∉ digits → c ∉ format.scientific digits lead := by
  have hpoint : c ≠ '.' := ne_of_isBlank h (by decide)
  have hmark : c ≠ 'e' := ne_of_isBlank h (by decide)
  have hplus : c ≠ '+' := ne_of_isBlank h (by decide)
  have hlead : c ∉ Text.Integer.write lead := notMem_writeInt h
  have hsign : c ∉ (if format.plusExponent ∧ 0 ≤ lead then ['+'] else []) := by
    split <;> simp [hplus]
  intro digits hdigits
  match digits, hdigits with
  | [], _ => simp [Decimal.Format.scientific, hmark, hsign, hlead]
  | [d], hdigits =>
      rw [List.mem_singleton] at hdigits
      simp [Decimal.Format.scientific, hdigits, hmark, hsign, hlead]
  | d :: r :: rest, hdigits =>
      simp only [List.mem_cons, not_or] at hdigits
      simp [Decimal.Format.scientific, hdigits, hpoint, hmark, hsign, hlead]

theorem notMem_writeDouble {x : Float} {c : Char} (h : isBlank c) : c ∉ writeDouble x := by
  have hminus : c ≠ '-' := ne_of_isBlank h (by decide)
  have hmagnitude : ∀ b, c ∉ doubleFormat.magnitude b := by
    intro b
    rw [Decimal.Format.magnitude]
    split
    · exact notMem_positional h (notMem_natDigits h)
    · exact notMem_scientific h (notMem_natDigits h)
  rw [writeDouble]
  split
  · exact notMem_of_letters h (by decide)
  · split
    · exact notMem_of_letters h (by decide)
    · exact notMem_of_letters h (by decide)
  · rw [List.mem_append, not_or]
    refine ⟨?_, hmagnitude _⟩
    split <;> simp [hminus]

/-! ## All kinds -/

theorem notMem_write {c : Char} (h : isBlank c) : ∀ v : ParamValue, c ∉ v.write
  | int v => notMem_writeInt h
  | double v => notMem_writeDouble h
  | bool v => notMem_of_letters h (by cases v <;> decide)
  | string v => notMem_encode h
  | blob v => notMem_lower h
  | points v => notMem_writeTuples h
  | rects v => notMem_writeTuples h

theorem notMem_kind {c : Char} (h : isBlank c) (v : ParamValue) : c ∉ v.kind.toList := by
  cases v <;> exact notMem_of_letters h (by rw [kind]; decide)

/-- A value is read from its text, under the word of its kind. -/
theorem read_write (v : ParamValue) : read v.kind.toList v.write = .ok v := by
  cases v with
  | int v => simp [read, kind, write, Text.Integer.readInt64_write]
  | double v => simp [read, kind, write, Decimal.readFloat_writeDouble]
  | bool v => cases v <;> simp [read, kind, write]
  | string v => simp [read, kind, write, readEscaped_encode, Except.map]
  | blob v => simp [read, kind, write, readBlob_lower, Except.map]
  | points v =>
      have hread : readList 2 point? (writeTuples (v.map fun p => [p.x, p.y])) = .ok v :=
        readList_writeTuples (fun p : Point => [p.x, p.y]) (fun _ => rfl)
          (fun _ => List.cons_ne_nil _ _) v
      simp [read, kind, write, hread, Except.map]
  | rects v =>
      have hread : readList 4 rect? (writeTuples (v.map fun r => [r.x, r.y, r.width, r.height]))
          = .ok v :=
        readList_writeTuples (fun r : Rect => [r.x, r.y, r.width, r.height]) (fun _ => rfl)
          (fun _ => List.cons_ne_nil _ _) v
      simp [read, kind, write, hread, Except.map]

end Darkroom.ParamValue
