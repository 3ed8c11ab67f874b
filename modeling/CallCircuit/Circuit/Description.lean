import CallCircuit.Circuit.Edit

/-!
# Descriptions of circuits

A description lists the parts of a circuit without a promise that they fit together.
`Description.build` builds the circuit part by part and holds each command against what is
there, so it succeeds on consistent descriptions only.
-/

namespace CallCircuit

/-- What a document says of a circuit. -/
structure Description where
  name : Option String := none
  registers : List Register := []
  /-- The bits of the registers, which follow from the registers and may be left out. -/
  bits : Option (List Bit) := none
  slotCount : UInt64 := 0
  commands : List Command := []
deriving DecidableEq, Repr, Inhabited

namespace Description

open Edit

/-- Adds registers in order. -/
def addRegisters : List Register → Edit Unit
  | [] => return
  | r :: rest => do
    discard <| addRegister r.name r.size
    addRegisters rest

/-- Refuses a bit list other than that of the circuit. -/
def checkBitList (bits : Option (List Bit)) : Edit Unit := do
  match bits with
  | none => return
  | some bits =>
    if bits ≠ (← Update.current).bits then refuse (.inconsistent .bitList)

/-- Adds commands in order, each held against the circuit first. -/
def addCommands : List Command → Edit Unit
  | [] => return
  | command :: rest => do
    checked ((← Update.current).checkCommand command)
    pushCommand command
    addCommands rest

/-- Builds the described circuit out of an empty one. -/
def build (d : Description) : Edit Unit := do
  Update.put { ← Update.current with name := d.name }
  addRegisters d.registers
  checkBitList d.bits
  discard <| growSlots d.slotCount
  addCommands d.commands

end Description

/-- The description that a circuit fits. -/
def Circuit.description (c : Circuit) : Description :=
  ⟨c.name, c.registers, some c.bits, c.slotCount, c.commands⟩

end CallCircuit
