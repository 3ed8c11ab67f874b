/-!
# Bits, state slots and operands

What the commands of a circuit act on: classical bits, which live in named registers, and the
slots of the state register that calls into modules share. `Operand.sort` puts operands in
their canonical order, all bits before all slots.
-/

namespace CallCircuit

/-- The register that a circuit made from a number of bits puts them in. -/
def defaultRegister : String := "c"

/-- The name that slots of the state register are shown under. No circuit holds it back: a
register may bear it too. -/
def stateRegister : String := "_w"

/-- A name with an index in brackets, which is how bits, slots and registers are shown. -/
def indexed (name : String) (index : UInt64) : String := s!"{name}[{index}]"

/-- A classical bit: the name of its register and its index there. -/
structure Bit where
  register : String
  index : UInt64
deriving DecidableEq, Repr, Inhabited

/-- The bit as it is shown, such as `c[3]`. -/
def Bit.text (b : Bit) : String := indexed b.register b.index

/-- A slot of the state register. -/
structure Slot where
  index : UInt64
deriving DecidableEq, Repr, Inhabited

/-- The slot as it is shown, such as `_w[0]`. -/
def Slot.text (s : Slot) : String := indexed stateRegister s.index

/-- What a command acts on. -/
inductive Operand where
  | bit (b : Bit)
  | slot (s : Slot)
deriving DecidableEq, Repr, Inhabited

namespace Operand

/-- The operand as it is shown. -/
def text : Operand → String
  | .bit b => b.text
  | .slot s => s.text

/-- The canonical order: bits by the name of their register and then by index, then slots by
index. -/
def precedes : Operand → Operand → Bool
  | .bit a, .bit b => a.register < b.register || (a.register == b.register && a.index ≤ b.index)
  | .bit _, .slot _ => true
  | .slot _, .bit _ => false
  | .slot a, .slot b => a.index ≤ b.index

/-- The operands in canonical order. -/
def sort (operands : List Operand) : List Operand := operands.mergeSort precedes

end Operand

end CallCircuit
