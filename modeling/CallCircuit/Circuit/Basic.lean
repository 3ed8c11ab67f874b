import CallCircuit.Capacity

/-!
# Circuits

A circuit has registers, the list of their bits, a state register of some number of slots, and
a list of commands. Bits come with their register, and slots only ever grow in number.
-/

namespace CallCircuit

/-- A circuit of classical bits whose commands are calls into modules. -/
structure Circuit where
  name : Option String := none
  /-- The registers in the order in which they were added. -/
  registers : List Register := []
  /-- The bits of the registers, register by register. -/
  bits : List Bit := []
  /-- How many slots the state register has. -/
  slotCount : UInt64 := 0
  commands : List Command := []
deriving DecidableEq, Repr, Inhabited

namespace Circuit

/-- The register of this name. -/
def register? (c : Circuit) (name : String) : Option Register :=
  c.registers.find? (·.name == name)

/-- Whether a bit belongs to the circuit: the register of its name has an index for it. -/
def containsBit (c : Circuit) (b : Bit) : Bool := (c.register? b.register).any (·.contains b)

/-- The slots of the state register. -/
def slots (c : Circuit) : List Slot :=
  (List.range c.slotCount.toNat).map fun i => ⟨UInt64.ofNat i⟩

/-- The slots of the state register, if there is room for them. -/
def collectSlots (c : Circuit) : Except Failure (List Slot) := do
  checkRoom c.slotCount.toNat slotBytes
  return c.slots

/-- The circuit with one more register and its bits. -/
def withRegister (c : Circuit) (r : Register) : Circuit :=
  { c with registers := c.registers ++ [r], bits := c.bits ++ r.bits }

/-- The circuit with one more command. -/
def withCommand (c : Circuit) (command : Command) : Circuit :=
  { c with commands := c.commands ++ [command] }

end Circuit

end CallCircuit
