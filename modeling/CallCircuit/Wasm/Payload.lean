import CallCircuit.Wasm.Reader
import CallCircuit.Wasm.Signature

/-!
# The payloads of a module

A module is a header and then sections. Reading one yields the payloads of its sections in file
order, with nothing validated: the types, imports, functions and exports of a module are kept,
and of other sections only the form is checked. A component is read likewise; the sections of
the modules and components inside it stand in its own sequence, in place.
-/

namespace CallCircuit.Wasm

/-- What a section says about the functions of a module. -/
inductive Payload where
  /-- The entries of a type section; `none` is a type that is no function type. -/
  | types (entries : List (Option Signature))
  /-- The imports of an import section: the type index of a function, `none` for all else. -/
  | imports (entries : List (Option UInt32))
  /-- The type indices of a function section. -/
  | functions (entries : List UInt32)
  /-- The exports of an export section: the name and function index of a function, `none` for all
  else. -/
  | exports (entries : List (Option (String × UInt32)))
  /-- A section that says nothing about functions. -/
  | other
deriving DecidableEq, Repr

namespace Reader

/-- The codes of the ten abstract heap types, which also stand for the nullable references to
them. -/
def abstractHeapTypes : List Nat := [0x70, 0x6f, 0x6e, 0x6d, 0x6a, 0x69, 0x68, 0x67, 0x66, 0x65]

/-- How many type indices a reference can name. -/
def maxTypeIndex : Int := Nat.pow 2 20

/-- A heap type: an abstract one or the index of a type, which need not exist. -/
def heapType : Reader Unit := do
  match (← get).head? with
  | some b =>
    if abstractHeapTypes.contains b.toNat then discard byte
    else
      let index ← signed 33
      require (0 ≤ index && index < maxTypeIndex)
  | none => failure

/-- What follows the code of a reference type. -/
def referenceRest (code : Nat) : Reader Unit :=
  if abstractHeapTypes.contains code then pure ()
  else if code = 0x6b ∨ code = 0x6c then heapType
  else failure

/-- A reference type, whose code is a number in LEB128. -/
def referenceType : Reader Unit := do referenceRest (← unsigned 32)

/-- A value type, whose code is one byte. -/
def valueType : Reader ValueType := do
  match (← byte).toNat with
  | 0x7f => return .i32
  | 0x7e => return .i64
  | 0x7d => return .f32
  | 0x7c => return .f64
  | 0x7b => return .v128
  | code => do
    referenceRest code
    return .ref

/-- A byte that says yes or no. -/
def flag : Reader Bool := do
  let b ← byte
  require (b ≤ 1)
  return b = 1

/-- A field of an array or struct type. -/
def fieldType : Reader Unit := do
  match (← get).head? with
  | some 0x7a => discard byte
  | some 0x79 => discard byte
  | _ => discard valueType
  discard flag

/-- The limits on what a type may hold. -/
def maxParams : Nat := 1000
@[inherit_doc maxParams] def maxResults : Nat := 1000
@[inherit_doc maxParams] def maxFields : Nat := 10000

/-- A function, array or struct type whose code has been read. -/
def compositeType (code : UInt8) : Reader (Option Signature) := do
  match code.toNat with
  | 0x60 =>
    let params ← boundedVector maxParams valueType
    let results ← boundedVector maxResults valueType
    return some ⟨params, results⟩
  | 0x5e =>
    fieldType
    return none
  | 0x5f =>
    discard (boundedVector maxFields fieldType)
    return none
  | _ => failure

/-- An entry of a type section, which may name a supertype first. -/
def typeEntry : Reader (Option Signature) := do
  let code ← byte
  if code = 0x4e ∨ code = 0x50 then
    discard (boundedVector 1 word)
    compositeType (← byte)
  else compositeType code

/-- The limits of a table: whether there is a maximum, the minimum, and the maximum. -/
def tableLimits : Reader Unit := do
  let bounded ← flag
  discard word
  if bounded then discard word

/-- The limits of a memory: flags for a maximum, sharing and 64-bit addresses, the minimum, and
the maximum. -/
def memoryLimits : Reader Unit := do
  let flags ← byte
  require (flags < 8)
  let bits := if flags &&& 4 = 0 then 32 else 64
  discard (unsigned bits)
  if flags &&& 1 = 1 then discard (unsigned bits)

/-- An entry of an import section. -/
def importEntry : Reader (Option UInt32) := do
  discard name
  discard name
  match (← byte).toNat with
  | 0 => return some (← word)
  | 1 =>
    referenceType
    tableLimits
    return none
  | 2 =>
    memoryLimits
    return none
  | 3 =>
    discard valueType
    discard flag
    return none
  | 4 =>
    require ((← byte) = 0)
    discard word
    return none
  | _ => failure

/-- An entry of an export section. -/
def exportEntry : Reader (Option (String × UInt32)) := do
  let name ← name
  let kind ← byte
  require (kind < 5)
  let index ← word
  return if kind = 0 then some (name, index) else none

/-- The contents of a code section: a count and that many bodies, which are not looked into. -/
def bodies : Reader Unit := discard <| vector do take (← unsigned 32)

/-- The contents of a start section of a component. -/
def componentStart : Reader Unit := do
  discard word
  discard (boundedVector maxParams word)
  require ((← unsigned 32) ≤ maxResults)

end Reader

/-- The two kinds of file. -/
inductive Format where
  | core | component
deriving DecidableEq, Repr

/-- What the header says the file is; the low half of the version is not looked at. -/
def Format.ofHeader? : Bytes → Option (Format × Bytes)
  | 0x00 :: 0x61 :: 0x73 :: 0x6d :: _ :: _ :: 0 :: 0 :: rest => some (.core, rest)
  | 0x00 :: 0x61 :: 0x73 :: 0x6d :: _ :: _ :: 1 :: 0 :: rest => some (.component, rest)
  | _ => none

theorem Format.length_of_ofHeader? {bytes rest : Bytes} {format : Format}
    (h : ofHeader? bytes = some (format, rest)) : rest.length < bytes.length := by
  unfold ofHeader? at h
  split at h <;> cases h <;> simp <;> omega

namespace Payload

open Reader in
/-- The payload of a section with this id and these contents. -/
def ofSection? (format : Format) (id : Nat) (contents : Bytes) : Option Payload :=
  match format, id with
  | _, 0 => (name.front contents).map fun _ => .other
  | .core, 1 => ((vector typeEntry).whole contents).map .types
  | .core, 2 => ((vector importEntry).whole contents).map .imports
  | .core, 3 => ((vector word).whole contents).map .functions
  | .core, 7 => ((vector exportEntry).whole contents).map .exports
  | .core, 8 | .core, 12 => (word.whole contents).map fun _ => .other
  | .core, 10 => (bodies.whole contents).map fun _ => .other
  | .component, 9 => (componentStart.whole contents).map fun _ => .other
  | .core, 4 | .core, 5 | .core, 6 | .core, 9 | .core, 11 | .core, 13
  | .component, 2 | .component, 3 | .component, 5 | .component, 6 | .component, 7
  | .component, 8 | .component, 10 | .component, 11 => (word.front contents).map fun _ => .other
  | _, _ => some .other

/-- Whether a section of this id holds a whole module or component. -/
def isNested (format : Format) (id : Nat) : Bool :=
  format == .component && (id == 1 || id == 4)

/-- The greatest length of a module or component inside a component. -/
def maxNestedLength : Nat := Nat.pow 2 30

/-- The payloads of a sequence of sections. `room` is how long the sequence was declared to be: a
module or component inside it must be declared to fit, though the file may end before it does,
whereas the contents of any other section must be there in full. -/
def ofSections? (format : Format) (room : Nat) (bytes : Bytes) : Option (List Payload) :=
  match bytes with
  | [] => some []
  | id :: afterId =>
    if 128 ≤ id.toNat then none
    else
      match h : Reader.unsigned 32 afterId with
      | none => none
      | some (length, rest) =>
        have := Reader.unsigned_length h
        let room := room - (bytes.length - rest.length)
        if isNested format id.toNat then
          if maxNestedLength < length ∨ room < length then none
          else
            match h' : Format.ofHeader? (rest.take length) with
            | none => none
            | some (inner, sections) =>
              have := Format.length_of_ofHeader? h'
              do
                let first ← ofSections? inner (length - 8) sections
                let others ← ofSections? format (room - length) (rest.drop length)
                return first ++ others
        else if rest.length < length then none
        else do
          let first ← ofSection? format id.toNat (rest.take length)
          let others ← ofSections? format (room - length) (rest.drop length)
          return first :: others
termination_by bytes.length
decreasing_by
  · rw [List.length_take] at this
    rw [List.length_cons]
    omega
  all_goals
    rw [List.length_drop, List.length_cons]
    omega

/-- The payloads of a file. -/
def ofFile? (bytes : Bytes) : Option (List Payload) := do
  let (format, sections) ← Format.ofHeader? bytes
  ofSections? format (UInt64.size - 1 - 8) sections

end Payload

end CallCircuit.Wasm
