import CallCircuit.Json.Basic

/-!
# String literals

Within quotes a character stands for itself, or an escape stands for a character or for a UTF-16
unit. Reading goes in two steps: `pieces?` takes the literal apart into characters and units, and
`joinPieces` pairs the units up. `quote` writes the shortest escapes, and only where one is
needed.

* `pieces?_length`, `unquote?_length`: reading leaves less of the text.
-/

namespace CallCircuit.Json

/-! ## Writing -/

/-- The escapes of one character: what stands after the backslash, and what it means. -/
def shortEscapes : List (Char × Char) :=
  [('"', '"'), ('\\', '\\'), ('/', '/'), ('b', '\x08'), ('f', '\x0c'), ('n', '\n'), ('r', '\r'),
    ('t', '\t')]

/-- The characters that `quote` escapes and that have an escape of one character. -/
def escapeOf? : Char → Option Char
  | '"' => some '"'
  | '\\' => some '\\'
  | '\x08' => some 'b'
  | '\x0c' => some 'f'
  | '\n' => some 'n'
  | '\r' => some 'r'
  | '\t' => some 't'
  | _ => none

/-- A character as it is written within quotes. -/
def quoteChar (c : Char) : List Char :=
  match escapeOf? c with
  | some e => ['\\', e]
  | none =>
    if c.toNat < 0x20 then
      ['\\', 'u', '0', '0', Nat.digitChar (c.toNat / 16), Nat.digitChar (c.toNat % 16)]
    else [c]

/-- The literal of a text. What is no text is written as an unpaired surrogate. -/
def quote : Text → List Char
  | some s => '"' :: s.toList.flatMap quoteChar ++ ['"']
  | none => ['"', '\\', 'u', 'd', '8', '0', '0', '"']

/-! ## Reading -/

/-- What a string literal is made of. -/
inductive Piece where
  | char (c : Char)
  /-- An escaped UTF-16 unit. -/
  | unit (n : Nat)
deriving DecidableEq, Repr

/-- The value of a hexadecimal digit of either case. -/
def hexDigit? (c : Char) : Option Nat :=
  if '0' ≤ c ∧ c ≤ '9' then some (c.toNat - '0'.toNat)
  else if 'a' ≤ c ∧ c ≤ 'f' then some (c.toNat - 'a'.toNat + 10)
  else if 'A' ≤ c ∧ c ≤ 'F' then some (c.toNat - 'A'.toNat + 10)
  else none

/-- The value of four hexadecimal digits. -/
def hexUnit? (a b c d : Char) : Option Nat := do
  return (((← hexDigit? a) * 16 + (← hexDigit? b)) * 16 + (← hexDigit? c)) * 16 + (← hexDigit? d)

/-- The pieces up to the closing quote, and what follows it. Control characters have to be
escaped. -/
def pieces? : List Char → Option (List Piece × List Char)
  | [] => none
  | '"' :: rest => some ([], rest)
  | '\\' :: 'u' :: a :: b :: c :: d :: rest =>
    match hexUnit? a b c d, pieces? rest with
    | some n, some (pieces, rest) => some (.unit n :: pieces, rest)
    | _, _ => none
  | '\\' :: e :: rest =>
    match shortEscapes.lookup e, pieces? rest with
    | some c, some (pieces, rest) => some (.char c :: pieces, rest)
    | _, _ => none
  | c :: rest =>
    if c.toNat < 0x20 then none
    else
      match pieces? rest with
      | some (pieces, rest) => some (.char c :: pieces, rest)
      | none => none

/-- Whether a unit is the first of a surrogate pair. -/
def isLeading (n : Nat) : Bool := 0xd800 ≤ n && n < 0xdc00

/-- Whether a unit is the second of a surrogate pair. -/
def isTrailing (n : Nat) : Bool := 0xdc00 ≤ n && n < 0xe000

/-- The character of a surrogate pair. -/
def ofPair (leading trailing : Nat) : Char :=
  Char.ofNat (0x10000 + (leading - 0xd800) * 0x400 + (trailing - 0xdc00))

/-- The characters of the pieces, with surrogates paired up. A leading surrogate that has been read
waits for its partner, which has to come next. -/
def joinPieces : Option Nat → List Piece → Option (List Char)
  | none, [] => some []
  | none, .char c :: rest => (joinPieces none rest).map (c :: ·)
  | none, .unit n :: rest =>
    if isLeading n then joinPieces (some n) rest
    else if isTrailing n then none
    else (joinPieces none rest).map (Char.ofNat n :: ·)
  | some leading, .unit n :: rest =>
    if isTrailing n then (joinPieces none rest).map (ofPair leading n :: ·) else none
  | some _, _ => none

/-- The text of a literal whose opening quote has been read, and what follows it. -/
def unquote? (cs : List Char) : Option (Text × List Char) :=
  match pieces? cs with
  | some (pieces, rest) => some ((joinPieces none pieces).map String.ofList, rest)
  | none => none

theorem pieces?_length {cs rest : List Char} {pieces : List Piece}
    (h : pieces? cs = some (pieces, rest)) : rest.length < cs.length := by
  fun_induction pieces? cs generalizing pieces rest <;> simp_all <;> grind

theorem unquote?_length {cs rest : List Char} {s : Text} (h : unquote? cs = some (s, rest)) :
    rest.length < cs.length := by
  unfold unquote? at h
  split at h <;> cases h
  exact pieces?_length ‹_›

end CallCircuit.Json
