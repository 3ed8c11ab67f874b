import CallCircuit.Json.Token

/-!
# Writing a value

A layout says which blanks stand between the tokens of a value: none in the compact layout, a
line for each item and member in the indented one.
-/

namespace CallCircuit.Json

/-- The blanks that a writer puts between tokens. -/
structure Layout where
  /-- What comes before an item, and before the end of a container, at a depth of nesting. -/
  line : Nat → List Char
  /-- What comes after a colon. -/
  gap : List Char
  line_blank : ∀ depth, ∀ c ∈ line depth, isBlank c = true
  gap_blank : ∀ c ∈ gap, isBlank c = true

namespace Layout

/-- No blanks. -/
def compact : Layout where
  line _ := []
  gap := []
  line_blank := by simp
  gap_blank := by simp

/-- A line for each item and member, indented by two spaces for each container around it. -/
def indented : Layout where
  line depth := '\n' :: List.replicate (2 * depth) ' '
  gap := [' ']
  line_blank := by simp [isBlank]
  gap_blank := by simp [isBlank]

end Layout

mutual

/-- The text of a value that stands in `depth` containers. -/
def writeAt (layout : Layout) (depth : Nat) : Json → List Char
  | .null => ['n', 'u', 'l', 'l']
  | .bool true => ['t', 'r', 'u', 'e']
  | .bool false => ['f', 'a', 'l', 's', 'e']
  | .number n => n.literal
  | .string s => quote s
  | .array [] => ['[', ']']
  | .array (item :: items) =>
    '[' :: layout.line (depth + 1) ++ item.writeAt layout (depth + 1) ++
      writeItems layout depth items
  | .object [] => ['\x7b', '\x7d']
  | .object ((key, value) :: members) =>
    '\x7b' :: layout.line (depth + 1) ++ quote key ++ ':' :: layout.gap ++
      value.writeAt layout (depth + 1) ++ writeMembers layout depth members

/-- The further items of an array, and its end. -/
def writeItems (layout : Layout) (depth : Nat) : List Json → List Char
  | [] => layout.line depth ++ [']']
  | item :: items =>
    ',' :: layout.line (depth + 1) ++ item.writeAt layout (depth + 1) ++
      writeItems layout depth items

/-- The further members of an object, and its end. -/
def writeMembers (layout : Layout) (depth : Nat) : List (Text × Json) → List Char
  | [] => layout.line depth ++ ['\x7d']
  | (key, value) :: members =>
    ',' :: layout.line (depth + 1) ++ quote key ++ ':' :: layout.gap ++
      value.writeAt layout (depth + 1) ++ writeMembers layout depth members

end

/-- The text of a value. -/
def write (layout : Layout) (j : Json) : String := String.ofList (j.writeAt layout 0)

end CallCircuit.Json
