import CallCircuit.Operand

/-!
# Operations and commands

An operation is a call into a function of a module, possibly under conditions. A command places
an operation on operands: the condition bits of each layer from the outermost inwards, the bits
of the inputs, the bits of the outputs, and last the state slots.

Counts are machine words, and a sum of counts that leaves the range of a word is `none`, never a
wrapped number.
-/

namespace CallCircuit

/-- The sum of two words, `none` when it leaves their range. -/
def checkedAdd (a b : UInt64) : Option UInt64 :=
  if a.toNat + b.toNat < UInt64.size then some (a + b) else none

/-- The total of a list of widths. -/
def totalWidth (widths : List UInt32) : Nat := widths.foldr (fun w total => w.toNat + total) 0

/-- Texts in brackets with commas between them. -/
def bracketed (items : List String) : String := "[" ++ ", ".intercalate items ++ "]"

/-- A call into a function of a module, with the shape of its variables. -/
structure ModuleCall where
  /-- The name of the function. -/
  function : String
  /-- The uid of the module that exports it. -/
  uid : String
  inputCount : UInt64
  outputCount : UInt64
  /-- The width in bits of each input variable. -/
  inputWidths : List UInt32
  /-- The width in bits of each output variable. -/
  outputWidths : List UInt32
  /-- How many bits the call acts on. -/
  bitCount : UInt64
  /-- How many state slots the call acts on. -/
  slotCount : UInt64
deriving DecidableEq, Repr, Inhabited

namespace ModuleCall

/-- The call whose counts follow from its widths. -/
def ofWidths (function uid : String) (inputs outputs : List UInt32) (slotCount : UInt64) :
    ModuleCall where
  function := function
  uid := uid
  inputCount := UInt64.ofNat inputs.length
  outputCount := UInt64.ofNat outputs.length
  inputWidths := inputs
  outputWidths := outputs
  bitCount := UInt64.ofNat (totalWidth (inputs ++ outputs))
  slotCount := slotCount

/-- Whether the counts of a call are those of its widths. -/
def countsAgree (c : ModuleCall) : Bool :=
  c.inputCount.toNat == c.inputWidths.length && c.outputCount.toNat == c.outputWidths.length &&
    c.bitCount.toNat == totalWidth (c.inputWidths ++ c.outputWidths)

/-- The call as it is shown: the function and the first eight characters of the uid. -/
def text (c : ModuleCall) : String :=
  "WASM " ++ c.function ++ "@" ++ String.ofList (c.uid.toList.take 8)

end ModuleCall

/-- A call, or an operation that runs only when its condition bits hold a value. The condition
bits are read little-endian: the first is the least significant. -/
inductive Operation where
  | call (c : ModuleCall)
  | conditional (op : Operation) (width value : UInt64)
deriving DecidableEq, Repr, Inhabited

namespace Operation

/-- The call inside all conditions. -/
def innermost : Operation → ModuleCall
  | .call c => c
  | .conditional op _ _ => op.innermost

/-- How many bits the operation acts on, condition bits included. -/
def bitCount? : Operation → Option UInt64
  | .call c => some c.bitCount
  | .conditional op width _ => op.bitCount?.bind (checkedAdd width)

/-- How many state slots the operation acts on. -/
def slotCount (op : Operation) : UInt64 := op.innermost.slotCount

/-- How many conditions the call stands under. -/
def layers : Operation → Nat
  | .call _ => 0
  | .conditional op _ _ => op.layers + 1

/-- The operation as it is shown. -/
def text : Operation → String
  | .call c => c.text
  | .conditional op width value => s!"IF ({width} bits == {value}) THEN " ++ op.text

end Operation

/-- An operation placed on operands, in an optional group. -/
structure Command where
  op : Operation
  args : List Operand
  group : Option String
deriving DecidableEq, Repr, Inhabited

/-- The command as it is shown. -/
def Command.text (c : Command) : String :=
  c.op.text ++ " " ++ ", ".intercalate (c.args.map Operand.text) ++ ";"

end CallCircuit
