import CallCircuit.Circuit.Basic
import CallCircuit.Condition

/-!
# Checks against a circuit

`Circuit.checkUnits` looks for the first bit that is unknown or repeated and then for the first
repeated slot. `Circuit.checkCommand` holds a command from outside against the circuit: the
counts of its operation, the number and kinds of its operands, and the operands themselves.
-/

namespace CallCircuit

/-- Splits operands into exactly `bitCount` bits and the slots after them; `op` is the operation
that they are operands of. -/
def splitOperands (op : Operation) : Nat → List Operand →
    Except CircuitError (List Bit × List Slot)
  | _, [] => .ok ([], [])
  | bitCount + 1, .bit b :: rest => do
    let (bits, slots) ← splitOperands op bitCount rest
    return (b :: bits, slots)
  | 0, .slot s :: rest => do
    let (bits, slots) ← splitOperands op 0 rest
    return (bits, s :: slots)
  | _, arg :: _ => .error (.inconsistent (.misplaced arg op))

namespace Circuit

/-- Refuses the first bit that is not the circuit's or is among `seen` or earlier in the list. -/
def checkBits (c : Circuit) (seen : List Bit) : List Bit → Except CircuitError Unit
  | [] => .ok ()
  | b :: bits =>
    if !c.containsBit b then .error (.unknownBit b)
    else if seen.contains b then .error (.duplicateArgument (.bit b))
    else c.checkBits (b :: seen) bits

/-- Refuses the first slot that is among `seen` or earlier in the list. -/
def checkSlots (seen : List Slot) : List Slot → Except CircuitError Unit
  | [] => .ok ()
  | s :: slots =>
    if seen.contains s then .error (.duplicateArgument (.slot s))
    else checkSlots (s :: seen) slots

/-- Every bit must be the circuit's, and no bit and no slot may occur twice. -/
def checkUnits (c : Circuit) (bits : List Bit) (slots : List Slot) :
    Except CircuitError Unit := do
  c.checkBits [] bits
  checkSlots [] slots

/-- Holds a command from outside against the circuit. Its operands must be the bits of the
operation and then its slots, all of them the circuit's and none repeated. -/
def checkCommand (c : Circuit) (command : Command) : Except Failure Unit := do
  let op := command.op
  Failure.lift op.check
  let bitCount ← Failure.ofSum op.bitCount?
  let expected ← Failure.ofSum (checkedAdd bitCount op.slotCount)
  if command.args.length ≠ expected.toNat then
    throw (.refused (.inconsistent (.argumentCount op expected command.args.length)))
  let (bits, slots) ← Failure.lift (splitOperands op bitCount.toNat command.args)
  match slots.find? (c.slotCount ≤ ·.index) with
  | some slot => throw (.refused (.unknownSlot slot))
  | none => Failure.lift (c.checkUnits bits slots)

end Circuit

end CallCircuit
