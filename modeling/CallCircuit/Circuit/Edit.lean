import CallCircuit.Circuit.Check
import CallCircuit.Trail

/-!
# Editing a circuit

An edit updates a circuit, leaves its trail, and may fail. Registers and commands are appended,
and the state register grows; nothing is ever taken away.
-/

namespace CallCircuit

/-- An update of a circuit. -/
abbrev Edit := Update Circuit Failure

namespace Edit

/-- Ends the edit with a refusal. -/
def refuse {α : Type} (e : CircuitError) : Edit α := throw (.refused e)

/-- Goes on with the value of a check, or ends the edit with its failure. -/
def checked {α : Type} (check : Except Failure α) : Edit α := liftExcept check
where
  /-- The check as an edit that changes nothing. -/
  liftExcept : Except Failure α → Edit α
    | .ok a => pure a
    | .error e => throw e

/-- Appends a register and its bits. The entry comes first, so that a register whose bits have no
room leaves it, too. -/
def pushRegister (r : Register) : Edit Unit := do
  Update.note (.addingRegister r)
  checked r.checkRoom
  Update.put ((← Update.current).withRegister r)

/-- Adds a register of a new name. -/
def addRegister (name : String) (size : UInt64) : Edit Register := do
  if ((← Update.current).register? name).isSome then
    refuse (.registerExists name)
  let r : Register := ⟨name, size⟩
  pushRegister r
  return r

/-- Grows the state register to `least` slots, unless it has as many, and gives its size. -/
def growSlots (least : UInt64) : Edit UInt64 := do
  let c ← Update.current
  if c.slotCount < least then
    Update.note (.growingStates c.slotCount least)
    Update.put { c with slotCount := least }
    return least
  else
    return c.slotCount

/-- Appends a command. -/
def pushCommand (command : Command) : Edit Unit := do
  Update.note (.addingCommand command)
  Update.put ((← Update.current).withCommand command)

/-- Appends the default register with this many bits, and nothing when there are none. -/
def pushDefaultRegister (bitCount : UInt64) : Edit Unit :=
  if bitCount = 0 then pure () else pushRegister ⟨defaultRegister, bitCount⟩

end Edit

/-- The circuit with this many bits in the default register, with the trail of its making, which a
failure keeps. -/
def Circuit.ofBitCount (bitCount : UInt64) : Except Failure Circuit × List Entry :=
  let out := (Edit.pushDefaultRegister bitCount).apply {}
  (out.result.map fun _ => out.value, out.trail)

end CallCircuit
