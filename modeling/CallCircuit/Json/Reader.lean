import CallCircuit.Json.Token

/-!
# Reading a value off tokens

A pushdown automaton: a `Place` says what may stand next, and a stack of frames holds the
containers that have been opened and what has been read of them. `ofTokens?` stops behind the
first whole value, however deep it nests.
-/

namespace CallCircuit.Json

/-- A container that is being read, with what has been read of it, last first. -/
inductive Frame where
  | array (items : List Json)
  | object (members : List (Text × Json))
  /-- An object that waits for the value of a key. -/
  | member (members : List (Text × Json)) (key : Text)
deriving Repr

/-- What may stand next. -/
inductive Place where
  | value
  /-- A value or the end of an array. -/
  | firstItem
  /-- A key or the end of an object. -/
  | firstKey
  | key
  | colon (key : Text)
  /-- A comma or the end of a container. -/
  | next
deriving Repr

/-- What a token leads to. -/
inductive Progress where
  | more (place : Place) (frames : List Frame)
  | done (value : Json)
deriving Repr

namespace Progress

/-- A value has been read: it goes into the innermost container. -/
def resume (value : Json) : List Frame → Option Progress
  | [] => some (.done value)
  | .array items :: frames => some (.more .next (.array (value :: items) :: frames))
  | .member members key :: frames => some (.more .next (.object ((key, value) :: members) :: frames))
  | .object _ :: _ => none

/-- A token where a value has to begin. -/
def begin (frames : List Frame) : Token → Option Progress
  | .null => resume .null frames
  | .bool b => resume (.bool b) frames
  | .number n => resume (.number n) frames
  | .string s => resume (.string s) frames
  | .openArray => some (.more .firstItem (.array [] :: frames))
  | .openObject => some (.more .firstKey (.object [] :: frames))
  | _ => none

/-- One token further. -/
def advance : Place → List Frame → Token → Option Progress
  | .firstItem, .array _ :: frames, .closeArray => resume (.array []) frames
  | .value, frames, token | .firstItem, frames, token => begin frames token
  | .firstKey, .object _ :: frames, .closeObject => resume (.object []) frames
  | .key, frames, .string key | .firstKey, frames, .string key => some (.more (.colon key) frames)
  | .colon key, .object members :: frames, .colon =>
    some (.more .value (.member members key :: frames))
  | .next, .array items :: frames, .comma => some (.more .value (.array items :: frames))
  | .next, .array items :: frames, .closeArray => resume (.array items.reverse) frames
  | .next, .object members :: frames, .comma => some (.more .key (.object members :: frames))
  | .next, .object members :: frames, .closeObject => resume (.object members.reverse) frames
  | _, _, _ => none

/-- The rest of a value that is being read, and the tokens after it. -/
def run (place : Place) (frames : List Frame) : List Token → Option (Json × List Token)
  | [] => none
  | token :: tokens =>
    match advance place frames token with
    | some (.done value) => some (value, tokens)
    | some (.more place frames) => run place frames tokens
    | none => none

end Progress

/-- The value that the tokens begin with, and the tokens after it. -/
def ofTokens? (tokens : List Token) : Option (Json × List Token) := Progress.run .value [] tokens

/-- The value that a text begins with, and the tokens after it. -/
def read? (s : String) : Option (Json × List Token) := ofTokens? (Token.scan s.toList)

end CallCircuit.Json
