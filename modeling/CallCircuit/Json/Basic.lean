import CallCircuit.Json.Number

/-!
# JSON values

A value as it was written: numbers keep their parts, and objects keep their members in order and
as often as they occur. A string literal can hold an escaped surrogate without its partner, which
is no text; such a literal is read as `none`.
-/

namespace CallCircuit

/-- The text of a string literal, `none` when it holds an unpaired surrogate. -/
abbrev Json.Text := Option String

/-- A JSON value. -/
inductive Json where
  | null
  | bool (b : Bool)
  | number (n : Json.Number)
  | string (s : Json.Text)
  | array (items : List Json)
  | object (members : List (Json.Text × Json))
deriving Repr, Inhabited

namespace Json

/-- The value that is written with the digits of `n`. -/
def nat (n : Nat) : Json := .number (.natural n)

/-- The value of a text. -/
def text (s : String) : Json := .string (some s)

/-- An object with these members. -/
def ofFields (fields : List (String × Json)) : Json :=
  .object (fields.map fun (name, value) => (some name, value))

mutual

/-- Whether a value nests at most `room` arrays and objects, its strings are texts and its
numbers finite. -/
def fits (room : Nat) : Json → Bool
  | .null | .bool _ => true
  | .number n => n.isFinite
  | .string s => s.isSome
  | .array items =>
    match room with
    | 0 => false
    | room + 1 => fitsItems room items
  | .object members =>
    match room with
    | 0 => false
    | room + 1 => fitsMembers room members

/-- `fits` for all of these. -/
def fitsItems (room : Nat) : List Json → Bool
  | [] => true
  | item :: items => item.fits room && fitsItems room items

/-- `fits` for the keys and values of all of these. -/
def fitsMembers (room : Nat) : List (Text × Json) → Bool
  | [] => true
  | (key, value) :: members => key.isSome && value.fits room && fitsMembers room members

end

end Json

end CallCircuit
