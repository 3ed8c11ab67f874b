import CallCircuit.Register
import CallCircuit.Operation

/-!
# Why a circuit operation gives no circuit

`CircuitError` has a constructor for each cause, and `CircuitError.message` has their wording.
Two failures are no errors of the caller's and stand apart from them: a count that leaves the range
of a machine word is `Failure.overflow`, and a list that no memory could hold is `Failure.capacity`.
-/

namespace CallCircuit

/-- Two settings of a call that do not go together. -/
inductive OptionConflict where
  /-- A condition beside condition bits or a condition value. -/
  | conditionTwice
  /-- Condition bits without a condition value, or the other way round. -/
  | conditionHalf
deriving DecidableEq, Repr

/-- The wording of a conflict. -/
def OptionConflict.message : OptionConflict → String
  | .conditionTwice => "condition cannot be combined with condition_bits or condition_value"
  | .conditionHalf => "condition_bits and condition_value must be given together"

/-- What disagrees within the description of a circuit. -/
inductive Inconsistency where
  | bitList
  | counts (call : ModuleCall)
  | argumentCount (op : Operation) (expected : UInt64) (found : Nat)
  | misplaced (arg : Operand) (op : Operation)
deriving DecidableEq, Repr

/-- The wording of an inconsistency. -/
def Inconsistency.message : Inconsistency → String
  | .bitList => "bit list does not match the registers"
  | .counts c =>
    let inputs := bracketed (c.inputWidths.map toString)
    let outputs := bracketed (c.outputWidths.map toString)
    s!"wasm op '{c.function}' has {c.inputCount} input(s), {c.outputCount} output(s) and " ++
      s!"{c.bitCount} bit(s), which do not match its widths {inputs} and {outputs}"
  | .argumentCount op expected found =>
    s!"{op.text} expects {expected} argument(s), got {found}"
  | .misplaced arg op => s!"argument {arg.text} of {op.text} is out of place"

/-- Why a circuit refuses an operation, or a text is refused as a circuit. -/
inductive CircuitError where
  /-- A variable wider than the integers of the module. -/
  | invalidArgument (width intSize : UInt32)
  /-- A register wider than a variable of a checked module can be. -/
  | registerTooWide (register : Register)
  /-- The module exports no function of this name and arity. -/
  | functionNotFound (function uid : String)
  | conflictingOptions (conflict : OptionConflict)
  /-- The number of bits is not the sum of the widths. -/
  | argumentCountMismatch (expected found : Nat)
  | unknownBit (bit : Bit)
  | unknownRegister (register : Register)
  | registerExists (name : String)
  | duplicateArgument (arg : Operand)
  | conditionOutOfRange (value : UInt64) (width : Nat)
  | unknownSlot (slot : Slot)
  | inconsistent (what : Inconsistency)
  /-- The text is no document of the expected shape. -/
  | unreadable
  /-- The text describes a circuit that the checks refuse. -/
  | rejected (cause : CircuitError)
deriving DecidableEq, Repr

/-- The wording of an error. -/
def CircuitError.message : CircuitError → String
  | .invalidArgument width intSize =>
    s!"only functions with i{intSize} type are allowed, got a width of {width} bits"
  | .registerTooWide r =>
    s!"wasm only supports registers of at most 32 bits, register '{r.name}' has {r.size}"
  | .functionNotFound function uid => s!"{function} not found, check wasm module {uid}"
  | .conflictingOptions conflict => s!"conflicting call options: {conflict.message}"
  | .argumentCountMismatch expected found =>
    s!"wasm call expects {expected} bit argument(s), got {found}"
  | .unknownBit bit => s!"bit {bit.text} is not part of the circuit"
  | .unknownRegister register => s!"register {register.text} is not part of the circuit"
  | .registerExists name => s!"register '{name}' already exists"
  | .duplicateArgument arg =>
    s!"unit {arg.text} appears more than once in the operation arguments"
  | .conditionOutOfRange value width =>
    s!"condition value {value} does not fit in {width} condition bit(s)"
  | .unknownSlot slot => s!"wasm state {slot.index} is not part of the circuit"
  | .inconsistent what => s!"invalid circuit: {what.message}"
  | .unreadable => "circuit serialization failed: the text does not have the expected shape"
  | .rejected cause => s!"circuit serialization failed: {cause.message}"

/-- Why an operation on a circuit ends without a result. -/
inductive Failure where
  | refused (error : CircuitError)
  /-- A sum of counts leaves the range of a machine word. -/
  | overflow
  /-- A list has more elements than there can be room for. -/
  | capacity
deriving DecidableEq, Repr

/-- The wording of a failure. -/
def Failure.message : Failure → String
  | .refused error => error.message
  | .overflow => "attempt to add with overflow"
  | .capacity => "capacity overflow"

/-- A refusal as a failure. -/
def Failure.lift {α : Type} : Except CircuitError α → Except Failure α
  | .ok a => .ok a
  | .error e => .error (.refused e)

/-- A missing sum as an overflow. -/
def Failure.ofSum : Option UInt64 → Except Failure UInt64
  | some n => .ok n
  | none => .error .overflow

end CallCircuit
