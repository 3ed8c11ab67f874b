/-!
# Reading binary data

A reader takes a value off the front of a list of bytes, or fails. Numbers are in LEB128: groups
of seven bits, the least significant first, with the high bit set in every byte but the last.
`unsigned_length` says that reading a number leaves fewer bytes than were given, which is what
makes a loop over sections end.
-/

namespace CallCircuit.Wasm

/-- The bytes of a module. -/
abbrev Bytes := List UInt8

/-- Takes a value off the front of the bytes, or fails. -/
abbrev Reader := StateT Bytes Option

namespace Reader

variable {α : Type}

/-- One byte. -/
def byte : Reader UInt8
  | [] => none
  | b :: rest => some (b, rest)

/-- Fails unless the condition holds. -/
def require (condition : Bool) : Reader Unit := if condition then pure () else failure

/-- An unsigned LEB128 number of at most `bits` bits. Bits of the last byte beyond these must be
zero, and no further byte may follow it; it need not be the shortest form of the number. -/
def unsigned (bits : Nat) : Reader Nat
  | [] => none
  | b :: rest =>
    if bits ≤ 7 then
      if b.toNat < Nat.pow 2 bits then some (b.toNat, rest) else none
    else if b.toNat < 128 then some (b.toNat, rest)
    else
      match unsigned (bits - 7) rest with
      | some (high, rest) => some (b.toNat - 128 + 128 * high, rest)
      | none => none

/-- The signed value of a group of seven bits. -/
def signedGroup (b : UInt8) : Int := if b.toNat < 64 then b.toNat else b.toNat - 128

/-- A signed LEB128 number of at most `bits` bits. Bits of the last byte beyond these must be
copies of the sign. -/
def signed (bits : Nat) : Reader Int
  | [] => none
  | b :: rest =>
    if bits ≤ 7 then
      if b.toNat < Nat.pow 2 (bits - 1) then some (b.toNat, rest)
      else if b.toNat < 128 ∧ 128 - Nat.pow 2 (bits - 1) ≤ b.toNat then
        some ((b.toNat : Int) - 128, rest)
      else none
    else if b.toNat < 128 then some (signedGroup b, rest)
    else
      match signed (bits - 7) rest with
      | some (high, rest) => some ((b.toNat : Int) - 128 + 128 * high, rest)
      | none => none

/-- An unsigned number of 32 bits. -/
def word : Reader UInt32 := UInt32.ofNat <$> unsigned 32

/-- Exactly this many bytes. -/
def take (count : Nat) : Reader Bytes := fun bytes =>
  if count ≤ bytes.length then some (bytes.take count, bytes.drop count) else none

/-- The given reader, this many times over. -/
def times : Nat → Reader α → Reader (List α)
  | 0, _ => pure []
  | count + 1, item => do
    let a ← item
    let more ← times count item
    return a :: more

/-- A count and then that many items. -/
def vector (item : Reader α) : Reader (List α) := do
  let count ← unsigned 32
  times count item

/-- A count of at most `limit` and then that many items. -/
def boundedVector (limit : Nat) (item : Reader α) : Reader (List α) := do
  let count ← unsigned 32
  require (count ≤ limit)
  times count item

/-- The length limit of names. -/
def maxNameLength : Nat := 100000

/-- A name: its length in bytes and its UTF-8 encoding. -/
def name : Reader String := do
  let length ← unsigned 32
  require (length ≤ maxNameLength)
  let bytes ← take length
  match String.fromUTF8? ⟨bytes.toArray⟩ with
  | some s => return s
  | none => failure

/-- What the reader makes of all the bytes; it must leave none. -/
def whole (reader : Reader α) (bytes : Bytes) : Option α :=
  match reader.run bytes with
  | some (a, []) => some a
  | _ => none

/-- What the reader makes of the front of the bytes; the rest does not matter. -/
def front (reader : Reader α) (bytes : Bytes) : Option α := (reader.run bytes).map (·.1)

theorem unsigned_length {bits : Nat} {bytes rest : Bytes} {n : Nat}
    (h : unsigned bits bytes = some (n, rest)) : rest.length < bytes.length := by
  induction bytes generalizing bits n with
  | nil => cases h
  | cons b bytes ih =>
    simp only [unsigned] at h
    repeat' split at h
    all_goals try cases h
    all_goals try simp
    rename_i h'
    have := ih h'
    omega

end Reader

end CallCircuit.Wasm
