import CallCircuit.Json.Reader

/-!
# The tokens of a value

The tokens of every text of a value: texts differ in how they write a token and in the blanks between
tokens.

* `ofTokens?_tokens`: the value is read off its tokens.
-/

namespace CallCircuit.Json

mutual

/-- The tokens of a value. -/
def tokens : Json → List Token
  | .null => [.null]
  | .bool b => [.bool b]
  | .number n => [.number n]
  | .string s => [.string s]
  | .array [] => [.openArray, .closeArray]
  | .array (item :: items) => .openArray :: item.tokens ++ itemTokens items
  | .object [] => [.openObject, .closeObject]
  | .object ((key, value) :: members) =>
    .openObject :: .string key :: .colon :: value.tokens ++ memberTokens members

/-- The tokens of the further items of an array, and of its end. -/
def itemTokens : List Json → List Token
  | [] => [.closeArray]
  | item :: items => .comma :: item.tokens ++ itemTokens items

/-- The tokens of the further members of an object, and of its end. -/
def memberTokens : List (Text × Json) → List Token
  | [] => [.closeObject]
  | (key, value) :: members =>
    .comma :: .string key :: .colon :: value.tokens ++ memberTokens members

end

/-! ## Reading tokens -/

namespace Progress

/-- What becomes of a value with these frames around it and these tokens after it. -/
def follow (value : Json) (frames : List Frame) (rest : List Token) :
    Option (Json × List Token) :=
  match resume value frames with
  | some (.done value) => some (value, rest)
  | some (.more place frames) => run place frames rest
  | none => none

theorem run_firstItem (j : Json) (frames : List Frame) (rest : List Token) :
    run .firstItem frames (j.tokens ++ rest) = run .value frames (j.tokens ++ rest) := by
  match j with
  | .null | .bool _ | .number _ | .string _ => simp [tokens, run, advance]
  | .array [] | .array (_ :: _) | .object [] | .object ((_, _) :: _) =>
    simp [tokens, run, advance, begin]

mutual

theorem run_tokens (j : Json) (frames : List Frame) (rest : List Token) :
    run .value frames (j.tokens ++ rest) = follow j frames rest := by
  match j with
  | .null | .bool _ | .number _ | .string _ => rfl
  | .array [] | .object [] => rfl
  | .array (item :: items) =>
    simp [tokens, run, advance, begin, run_firstItem, run_tokens item, follow, resume,
      run_itemTokens items]
  | .object ((key, value) :: members) =>
    simp [tokens, run, advance, begin, run_tokens value, follow, resume, run_memberTokens members]

theorem run_itemTokens (items done : List Json) (frames : List Frame) (rest : List Token) :
    run .next (.array done :: frames) (itemTokens items ++ rest) =
      follow (.array (done.reverse ++ items)) frames rest := by
  match items with
  | [] => rw [List.append_nil]; rfl
  | item :: items =>
    simp [itemTokens, run, advance, run_tokens item, follow, resume, run_itemTokens items]

theorem run_memberTokens (members done : List (Text × Json)) (frames : List Frame)
    (rest : List Token) :
    run .next (.object done :: frames) (memberTokens members ++ rest) =
      follow (.object (done.reverse ++ members)) frames rest := by
  match members with
  | [] => rw [List.append_nil]; rfl
  | (key, value) :: members =>
    simp [memberTokens, run, advance, run_tokens value, follow, resume, run_memberTokens members]

end

end Progress

theorem ofTokens?_tokens (j : Json) (rest : List Token) :
    ofTokens? (j.tokens ++ rest) = some (j, rest) := by
  rw [ofTokens?, Progress.run_tokens]
  rfl

end CallCircuit.Json
