import Darkroom.Json.Reader
import Darkroom.Proofs.Json.Token

/-!
# Written values read back

The reader completes a value exactly at its last token, whatever frames are open (`run_ofValue`). So
a printable value, in either layout, is read as itself (`read?_write`).
-/

namespace Darkroom.Json

open Token (ofValue ofItems ofMembers separated)

namespace Reading

/-- No value starts with the end of an array. -/
theorem run_firstItem (v : Json) (stack : List Frame) (rest : List Token) :
    run (.firstItem stack) (ofValue v ++ rest)
      = run (.value (.array [] :: stack)) (ofValue v ++ rest) := by
  cases v <;> rw [ofValue] <;> rfl

mutual

/-- The tokens of a value complete it, whatever is open around it. -/
theorem run_ofValue : ∀ (v : Json) (stack : List Frame) (rest : List Token),
    run (.value stack) (ofValue v ++ rest) = run (.after v stack) rest
  | .null, stack, rest => by rw [ofValue]; rfl
  | .bool b, stack, rest => by rw [ofValue]; rfl
  | .number n, stack, rest => by rw [ofValue]; rfl
  | .text s, stack, rest => by rw [ofValue]; rfl
  | .array [], stack, rest => by rw [ofValue, ofItems]; rfl
  | .array (v :: items), stack, rest => by
      have hbegin : run (.value stack) (ofValue (.array (v :: items)) ++ rest)
          = run (.firstItem stack) (ofValue v
              ++ ((ofItems items).flatMap (.comma :: ·) ++ .endArray :: rest)) := by
        rw [ofValue, ofItems]
        simp only [separated, List.cons_append, List.append_assoc, List.nil_append]
        rfl
      rw [hbegin, run_firstItem, run_ofValue v, run_ofItems items v [] stack rest]
      rfl
  | .object [], stack, rest => by rw [ofValue, ofMembers]; rfl
  | .object ((key, v) :: members), stack, rest => by
      have hbegin : run (.value stack) (ofValue (.object ((key, v) :: members)) ++ rest)
          = run (.value (.object [] key :: stack)) (ofValue v
              ++ ((ofMembers members).flatMap (.comma :: ·) ++ .endObject :: rest)) := by
        rw [ofValue, ofMembers]
        simp only [separated, List.cons_append, List.append_assoc, List.nil_append]
        rfl
      rw [hbegin, run_ofValue v, run_ofMembers members key v [] stack rest]
      rfl

/-- The items behind one that is complete, up to the end of their array. -/
theorem run_ofItems : ∀ (items : List Json) (v : Json) (done : List Json) (stack : List Frame)
    (rest : List Token),
    run (.after v (.array done :: stack))
        ((ofItems items).flatMap (.comma :: ·) ++ .endArray :: rest)
      = run (.after (.array ((v :: done).reverse ++ items)) stack) rest
  | [], v, done, stack, rest => by rw [ofItems, List.append_nil]; rfl
  | w :: items, v, done, stack, rest => by
      have hcomma : run (.after v (.array done :: stack))
          ((ofItems (w :: items)).flatMap (.comma :: ·) ++ .endArray :: rest)
            = run (.value (.array (v :: done) :: stack)) (ofValue w
                ++ ((ofItems items).flatMap (.comma :: ·) ++ .endArray :: rest)) := by
        rw [ofItems, List.flatMap_cons, List.append_assoc]
        rfl
      rw [hcomma, run_ofValue w, run_ofItems items w (v :: done) stack rest, List.reverse_cons,
        List.append_assoc, List.singleton_append]

/-- The members behind one that is complete, up to the end of their object. -/
theorem run_ofMembers : ∀ (members : List (Option String × Json)) (key : Option String) (v : Json)
    (done : List (Option String × Json)) (stack : List Frame) (rest : List Token),
    run (.after v (.object done key :: stack))
        ((ofMembers members).flatMap (.comma :: ·) ++ .endObject :: rest)
      = run (.after (.object (((key, v) :: done).reverse ++ members)) stack) rest
  | [], key, v, done, stack, rest => by rw [ofMembers, List.append_nil]; rfl
  | (key', w) :: members, key, v, done, stack, rest => by
      have hcomma : run (.after v (.object done key :: stack))
          ((ofMembers ((key', w) :: members)).flatMap (.comma :: ·) ++ .endObject :: rest)
            = run (.value (.object ((key, v) :: done) key' :: stack)) (ofValue w
                ++ ((ofMembers members).flatMap (.comma :: ·) ++ .endObject :: rest)) := by
        rw [ofMembers, List.flatMap_cons, List.append_assoc]
        rfl
      rw [hcomma, run_ofValue w, run_ofMembers members key' w ((key, v) :: done) stack rest,
        List.reverse_cons, List.append_assoc, List.singleton_append]

end

end Reading

theorem ofTokens?_ofValue (v : Json) : ofTokens? (ofValue v) = some v := by
  have hrun := Reading.run_ofValue v [] []
  rw [List.append_nil] at hrun
  rw [ofTokens?, hrun]
  rfl

/-- A printable value is read back from its text. -/
theorem read?_write {v : Json} (h : v.Printable) (layout : Layout) :
    read? (v.write layout 0) = some v := by
  have hlex := Token.lex_write layout h 0 [] (by simp [Token.Stops])
  rw [List.append_nil] at hlex
  rw [read?, hlex, Token.lex]
  simp only [Option.map_some, List.append_nil, Option.bind_some, ofTokens?_ofValue]

end Darkroom.Json
