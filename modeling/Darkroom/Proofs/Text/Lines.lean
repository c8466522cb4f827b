import Darkroom.Text.Lines

/-!
# Cutting and joining

What was joined with a separator is cut into the same pieces again, as long as no piece holds the
separator. Lines are the pieces that end with a newline; a last piece without one is a line of its
own unless it is empty.
-/

namespace Darkroom.Text

/-! ## Lines -/

def terminated (ls : List (List Char)) : List Char :=
  ls.flatMap (· ++ ['\n'])

theorem terminated_append (ls others : List (List Char)) :
    terminated (ls ++ others) = terminated ls ++ terminated others :=
  List.flatMap_append

theorem lines_append : ∀ {l : List Char} (rest : List Char), '\n' ∉ l →
    lines (l ++ '\n' :: rest) = l :: lines rest
  | [], rest, _ => by rw [List.nil_append, lines, if_pos rfl]
  | c :: l, rest, h => by
      rw [List.mem_cons, not_or] at h
      rw [List.cons_append, lines, if_neg (Ne.symm h.1), lines_append rest h.2]

theorem lines_of_unterminated : ∀ {l : List Char}, l ≠ [] → '\n' ∉ l → lines l = [l]
  | [c], _, h => by
      rw [List.mem_singleton] at h
      rw [lines, if_neg (Ne.symm h), lines]
  | c :: d :: l, _, h => by
      rw [List.mem_cons, not_or] at h
      rw [lines, if_neg (Ne.symm h.1), lines_of_unterminated (List.cons_ne_nil d l) h.2]

theorem lines_terminated_append : ∀ {ls : List (List Char)} (rest : List Char),
    (∀ l ∈ ls, '\n' ∉ l) → lines (terminated ls ++ rest) = ls ++ lines rest
  | [], _, _ => rfl
  | l :: ls, rest, h => by
      have hl := h l List.mem_cons_self
      have hls : ∀ m ∈ ls, '\n' ∉ m := fun m hm => h m (List.mem_cons_of_mem l hm)
      have hcons : terminated (l :: ls) ++ rest = l ++ '\n' :: (terminated ls ++ rest) := by
        simp [terminated]
      rw [hcons, lines_append _ hl, lines_terminated_append rest hls, List.cons_append]

theorem lines_terminated {ls : List (List Char)} (h : ∀ l ∈ ls, '\n' ∉ l) :
    lines (terminated ls) = ls := by
  have hlines := lines_terminated_append [] h
  rwa [List.append_nil, lines, List.append_nil] at hlines

/-- A beginning of terminated lines is some of the lines and a beginning of the next one. -/
theorem cut_terminated : ∀ {ls : List (List Char)} {s : List Char}, s <+: terminated ls →
    s = terminated ls
      ∨ ∃ before line after start, ls = before ++ line :: after ∧ start <+: line
          ∧ s = terminated before ++ start
  | [], s, h => Or.inl (List.prefix_nil.mp h)
  | l :: ls, s, h => by
      have hcons : terminated (l :: ls) = (l ++ ['\n']) ++ terminated ls := rfl
      rw [hcons] at h
      rcases List.prefix_or_prefix_of_prefix h (List.prefix_append (l ++ ['\n']) _) with hs | hs
      · rcases List.prefix_concat_iff.mp hs with rfl | hs
        · cases ls with
          | nil => exact Or.inl (by simp [terminated])
          | cons m ls =>
              exact Or.inr ⟨[l], m, ls, [], rfl, List.nil_prefix, by simp [terminated]⟩
        · exact Or.inr ⟨[], l, ls, s, rfl, hs, rfl⟩
      · obtain ⟨rest, rfl⟩ := hs
        rw [List.prefix_append_right_inj] at h
        rcases cut_terminated h with rfl | ⟨before, line, after, start, rfl, hstart, rfl⟩
        · exact Or.inl rfl
        · exact Or.inr ⟨l :: before, line, after, start, rfl, hstart, by simp [terminated]⟩

theorem trimReturns_of_notMem {line : List Char} (h : '\r' ∉ line) :
    trimReturns line = line := by
  rw [trimReturns]
  cases hrev : line.reverse with
  | nil => exact (List.reverse_eq_nil_iff.mp hrev).symm
  | cons c rest =>
      have hc : c ∈ line := List.mem_reverse.mp (hrev ▸ List.mem_cons_self)
      have hne : (c == '\r') = false := beq_eq_false_iff_ne.mpr fun heq => h (heq ▸ hc)
      rw [List.dropWhile_cons_of_neg (by simp [hne]), ← hrev, List.reverse_reverse]

/-! ## Pieces -/

theorem splitOnce_append {sep : Char} : ∀ {s : List Char} (rest : List Char), sep ∉ s →
    splitOnce sep (s ++ sep :: rest) = (s, some rest)
  | [], rest, _ => by rw [List.nil_append, splitOnce, if_pos rfl]
  | c :: s, rest, h => by
      rw [List.mem_cons, not_or] at h
      rw [List.cons_append, splitOnce, if_neg (Ne.symm h.1), splitOnce_append rest h.2]

theorem splitOn_of_notMem {sep : Char} : ∀ {s : List Char}, sep ∉ s → splitOn sep s = [s]
  | [], _ => rfl
  | c :: s, h => by
      rw [List.mem_cons, not_or] at h
      rw [splitOn, if_neg (Ne.symm h.1), splitOn_of_notMem h.2]

theorem splitOn_append {sep : Char} : ∀ {s : List Char} (rest : List Char), sep ∉ s →
    splitOn sep (s ++ sep :: rest) = s :: splitOn sep rest
  | [], rest, _ => by rw [List.nil_append, splitOn, if_pos rfl]
  | c :: s, rest, h => by
      rw [List.mem_cons, not_or] at h
      rw [List.cons_append, splitOn, if_neg (Ne.symm h.1), splitOn_append rest h.2]

theorem splitOn_intercalate {sep : Char} : ∀ {pieces : List (List Char)}, pieces ≠ [] →
    (∀ p ∈ pieces, sep ∉ p) → splitOn sep ([sep].intercalate pieces) = pieces
  | [p], _, h => by
      rw [List.intercalate_singleton]
      exact splitOn_of_notMem (h p List.mem_cons_self)
  | p :: q :: rest, _, h => by
      have hrest : ∀ r ∈ q :: rest, sep ∉ r := fun r hr => h r (List.mem_cons_of_mem p hr)
      have hcons : [sep].intercalate (p :: q :: rest)
          = p ++ sep :: [sep].intercalate (q :: rest) := by
        simp [List.intercalate]
      rw [hcons, splitOn_append _ (h p List.mem_cons_self),
        splitOn_intercalate (List.cons_ne_nil q rest) hrest]

/-- A character of joined pieces is the separator or stands in a piece. -/
theorem mem_intercalate {sep c : Char} : ∀ {pieces : List (List Char)},
    c ∈ [sep].intercalate pieces → c = sep ∨ ∃ p ∈ pieces, c ∈ p
  | [], h => by simp [List.intercalate] at h
  | [p], h => by
      rw [List.intercalate_singleton] at h
      exact Or.inr ⟨p, List.mem_cons_self, h⟩
  | p :: q :: rest, h => by
      have hcons : [sep].intercalate (p :: q :: rest)
          = p ++ sep :: [sep].intercalate (q :: rest) := by
        simp [List.intercalate]
      rw [hcons, List.mem_append, List.mem_cons] at h
      rcases h with hp | rfl | hrest
      · exact Or.inr ⟨p, List.mem_cons_self, hp⟩
      · exact Or.inl rfl
      · rcases mem_intercalate hrest with rfl | ⟨r, hr, hc⟩
        · exact Or.inl rfl
        · exact Or.inr ⟨r, List.mem_cons_of_mem p hr, hc⟩

end Darkroom.Text
