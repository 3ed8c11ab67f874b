import CallCircuit.Circuit.Description
import CallCircuit.Json.Basic

/-!
# JSON values as circuits

A structure is read from an object or from an array of its fields in order. In an object members
of other names do not matter, but no field may be there twice, and every key has to be a text.
Operations are the exception to this laxness: everything in them has to fit the remaining room,
`Json.fits`.
-/

namespace CallCircuit

namespace Json

/-! ## Values of fields -/

/-- A text. -/
def text? : Json → Option String
  | .string s => s
  | _ => none

/-- A natural number below a limit. -/
def natBelow? (limit : Nat) : Json → Option Nat
  | .number n => n.toNat?.filter (· < limit)
  | _ => none

/-- A 64-bit word. -/
def word64? (j : Json) : Option UInt64 := UInt64.ofNat <$> j.natBelow? UInt64.size

/-- A 32-bit word. -/
def word32? (j : Json) : Option UInt32 := UInt32.ofNat <$> j.natBelow? UInt32.size

/-- A list. -/
def list? {α : Type} (item? : Json → Option α) : Json → Option (List α)
  | .array items => items.mapM item?
  | _ => none

/-- A value that may be null. -/
def nullable? {α : Type} (value? : Json → Option α) : Json → Option (Option α)
  | .null => some none
  | j => some <$> value? j

/-- A field that may be left out. -/
def orElse? {α : Type} (default : α) (value? : Json → Option α) : Option Json → Option α
  | none => some default
  | some j => value? j

/-- The value of a member, if there is one of this name; two of them are refused. -/
def member? (members : List (Text × Json)) (name : String) : Option (Option Json) :=
  match members.filter (·.1 == some name) with
  | [] => some none
  | [(_, value)] => some (some value)
  | _ => none

/-- The values of the fields of these names, each `none` if it is not there. -/
def fields? (names : List String) : Json → Option (List (Option Json))
  | .array items =>
    if items.length ≤ names.length then
      some (items.map some ++ List.replicate (names.length - items.length) none)
    else none
  | .object members => if members.all (·.1.isSome) then names.mapM (member? members) else none
  | _ => none

/-- The tag of a value and the value without it: the member `type` of an object or the first item
of an array. -/
def untag? : Json → Option (Json × Json)
  | .array (tag :: items) => some (tag, .array items)
  | .object members =>
    match members.filter (·.1 == some "type") with
    | [(_, tag)] => some (tag, .object (members.filter (·.1 != some "type")))
    | _ => none
  | _ => none

end Json

/-! ## Parts of a circuit -/

/-- The bit that a value describes. -/
def Bit.ofJson? (j : Json) : Option Bit :=
  match j.fields? ["reg_name", "index"] with
  | some [some register, some index] => return ⟨← register.text?, ← index.word64?⟩
  | _ => none

/-- The slot that a value describes. -/
def Slot.ofJson? (j : Json) : Option Slot :=
  match j.fields? ["index"] with
  | some [some index] => return ⟨← index.word64?⟩
  | _ => none

/-- The operand that a value describes. -/
def Operand.ofJson? : Json → Option Operand
  | .object [(some "Bit", j)] => .bit <$> Bit.ofJson? j
  | .object [(some "WasmState", j)] => .slot <$> Slot.ofJson? j
  | _ => none

/-- The register that a value describes. -/
def Register.ofJson? (j : Json) : Option Register :=
  match j.fields? ["name", "size"] with
  | some [some name, some size] => return ⟨← name.text?, ← size.word64?⟩
  | _ => none

/-- The call that a value describes. -/
def ModuleCall.ofJson? (j : Json) : Option ModuleCall :=
  match j.fields? ["func_name", "wasm_file_uid", "n_inputs", "n_outputs", "width_i_parameter",
      "width_o_parameter", "num_bits", "num_w"] with
  | some [some function, some uid, some inputCount, some outputCount, some inputWidths,
      some outputWidths, some bitCount, some slotCount] => do
    return {
      function := ← function.text?
      uid := ← uid.text?
      inputCount := ← inputCount.word64?
      outputCount := ← outputCount.word64?
      inputWidths := ← inputWidths.list? Json.word32?
      outputWidths := ← outputWidths.list? Json.word32?
      bitCount := ← bitCount.word64?
      slotCount := ← slotCount.word64? }
  | _ => none

namespace Operation

/-- The kinds of operation. -/
inductive Kind where
  | call | conditional
deriving DecidableEq, Repr

/-- The kind that a tag says. Under a condition its number says it as well as its name. -/
def Kind.ofTag? (inner : Bool) : Json → Option Kind
  | .string (some "WASM") => some .call
  | .string (some "Conditional") => some .conditional
  | .number n =>
    match inner, n.toNat? with
    | true, some 0 => some .call
    | true, some 1 => some .conditional
    | _, _ => none
  | _ => none

/-- The operation that a value describes with at most `room` layers; `inner` says whether it
stands under a condition. -/
def ofLayers? (inner : Bool) : Nat → Json → Option Operation
  | 0, _ => none
  | room + 1, j => do
    let (tag, body) ← j.untag?
    match ← Kind.ofTag? inner tag with
    | .call => .call <$> ModuleCall.ofJson? body
    | .conditional =>
      match body.fields? ["op", "width", "value"] with
      | some [some op, some width, some value] =>
        return .conditional (← ofLayers? true room op) (← width.word64?) (← value.word64?)
      | _ => none

/-- The operation that a value describes, where there is room to nest this deep. -/
def ofJson? (room : Nat) (j : Json) : Option Operation :=
  if j.fits room then ofLayers? false room j else none

end Operation

/-- The command that a value describes, where there is room for its operation to nest this
deep. -/
def Command.ofJson? (room : Nat) (j : Json) : Option Command :=
  match j.fields? ["op", "args", "opgroup"] with
  | some [some op, some args, group] => do
    return {
      op := ← Operation.ofJson? room op
      args := ← args.list? Operand.ofJson?
      group := ← Json.orElse? none (Json.nullable? Json.text?) group }
  | _ => none

/-- How deep a document can nest. -/
def maxDepth : Nat := 127

/-- How deep the operation of a command in a circuit can nest: it stands in the circuit, the list
of commands and the command. -/
def Description.operationRoom : Nat := maxDepth - 3

/-- The description that a value gives of a circuit. -/
def Description.ofJson? (j : Json) : Option Description :=
  match j.fields? ["name", "registers", "bits", "wasm_states", "commands"] with
  | some [name, registers, bits, slotCount, commands] => do
    return {
      name := ← Json.orElse? none (Json.nullable? Json.text?) name
      registers := ← Json.orElse? [] (Json.list? Register.ofJson?) registers
      bits := ← Json.orElse? none (Json.nullable? (Json.list? Bit.ofJson?)) bits
      slotCount := ← Json.orElse? 0 Json.word64? slotCount
      commands := ← Json.orElse? [] (Json.list? (Command.ofJson? operationRoom)) commands }
  | _ => none

end CallCircuit
