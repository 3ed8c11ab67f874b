import CallCircuit.Circuit.Edit
import CallCircuit.Wasm.Handle

/-!
# Adding calls to a circuit

A call is given either by widths and single bits (`Edit.addCall`) or by whole registers
(`Edit.addRegisterCall`). Both hold the call against the module and then place it with
`Edit.place`, which checks the condition and all operands before it changes the circuit.
-/

namespace CallCircuit

open Wasm (Handle)

/-- The size limit of a register bound to a variable of a checked module. -/
def maxRegisterSize : UInt64 := 32

/-- The slots of a call that names none. -/
def defaultSlots : List Slot := [⟨0⟩]

/-- Refuses the first width above the integer size. -/
def checkWidths (inputs outputs : List UInt32) (intSize : UInt32) : Except CircuitError Unit :=
  match (inputs ++ outputs).find? (intSize < ·) with
  | some width => .error (.invalidArgument width intSize)
  | none => .ok ()

/-- A call whose function and variables have been accepted. -/
structure Placement where
  function : String
  uid : String
  inputs : List UInt32
  outputs : List UInt32
  /-- The bits of the inputs and then of the outputs. -/
  bits : List Bit
  slots : List Slot
  options : CallOptions
deriving DecidableEq, Repr

namespace Placement

/-- The condition bits and then the bits of the call. -/
def allBits (p : Placement) (guard : Option Guard) : List Bit :=
  (guard.map Guard.bits).getD [] ++ p.bits

/-- The operation of the call under its guard. -/
def operation (p : Placement) (guard : Option Guard) : Operation :=
  let call : Operation :=
    .call (.ofWidths p.function p.uid p.inputs p.outputs (UInt64.ofNat p.slots.length))
  match guard with
  | some g => .conditional call (UInt64.ofNat g.bits.length) g.value
  | none => call

/-- The command that the call becomes. -/
def command (p : Placement) (guard : Option Guard) : Command where
  op := p.operation guard
  args := (p.allBits guard).map .bit ++ p.slots.map .slot
  group := p.options.group

end Placement

/-- The greatest index among slots. -/
def maxSlot? (slots : List Slot) : Option UInt64 := (slots.map Slot.index).max?

namespace Edit

/-- Grows the state register to cover every slot. The number of slots needed can leave the range
of a word. -/
def cover (slots : List Slot) : Edit Unit := do
  match maxSlot? slots with
  | none => return
  | some last => discard <| growSlots (← checked (Failure.ofSum (checkedAdd last 1)))

/-- Places a call: all that can be refused is refused before the circuit changes. -/
def place (p : Placement) : Edit Unit := do
  let guard ← checked p.options.guard
  checked (Failure.lift ((← Update.current).checkUnits (p.allBits guard) p.slots))
  cover p.slots
  pushCommand (p.command guard)

/-- Adds a call on single bits. The widths are those of the input and output variables, and
`bits` are the bits bound to them, inputs first. Without `slots` the call acts on slot 0. -/
def addCall (function : String) (h : Handle) (inputs outputs : List UInt32) (bits : List Bit)
    (slots : Option (List Slot)) (options : CallOptions) : Edit Unit := do
  checked (Failure.lift (checkWidths inputs outputs h.intSize.bits))
  if !h.accepts function ⟨inputs.length, outputs.length⟩ then
    refuse (.functionNotFound function h.uid)
  let expected := totalWidth (inputs ++ outputs)
  if bits.length ≠ expected then
    refuse (.argumentCountMismatch expected bits.length)
  place ⟨function, h.uid, inputs, outputs, bits, slots.getD defaultSlots, options⟩

/-- The low half of a register size, which is how widths are recorded. -/
def recordedWidths (registers : List Register) : List UInt32 :=
  registers.map fun r => r.size.toUInt32

/-- A refusal of the registers and arity of a call, which a checked module makes and an unchecked
one does not. -/
def checkRegisters (function : String) (h : Handle) (inputs outputs : List Register) :
    Except CircuitError Unit :=
  match (inputs ++ outputs).find? (maxRegisterSize < ·.size) with
  | some r => .error (.registerTooWide r)
  | none =>
    if h.accepts function ⟨inputs.length, outputs.length⟩ then .ok ()
    else .error (.functionNotFound function h.uid)

/-- The bits of registers one after the other. The circuit must have each register, and room for
its bits, before the next one is looked at. -/
def registerBits (c : Circuit) : List Register → Except Failure (List Bit)
  | [] => return []
  | r :: rest =>
    if c.register? r.name = some r then do
      let bits ← r.collectBits
      return bits ++ (← registerBits c rest)
    else .error (.refused (.unknownRegister r))

/-- Adds a call on whole registers, each bound to one variable. -/
def addRegisterCall (function : String) (h : Handle) (inputs outputs : List Register)
    (slots : Option (List Slot)) (options : CallOptions) : Edit Unit := do
  if h.checked then checked (Failure.lift (checkRegisters function h inputs outputs))
  else Update.note (.uncheckedCall function h.uid)
  let bits ← checked (registerBits (← Update.current) (inputs ++ outputs))
  place ⟨function, h.uid, recordedWidths inputs, recordedWidths outputs, bits,
    slots.getD defaultSlots, options⟩

end Edit

end CallCircuit
