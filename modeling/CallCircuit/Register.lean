import CallCircuit.Operand

/-!
# Registers

A register is a name with a size. Its value owns no bits: `Register.bits` lists the bits that a
circuit holds for it, `Register.bit` looks one up, and `Register.contains` says which bits are
among them.
-/

namespace CallCircuit

/-- A named sequence of classical bits. -/
structure Register where
  name : String
  size : UInt64
deriving DecidableEq, Repr, Inhabited

/-- An index beyond the size of a register. -/
structure IndexError where
  register : Register
  index : UInt64
deriving DecidableEq, Repr

/-- The wording of an index error. -/
def IndexError.message (e : IndexError) : String :=
  s!"index {e.index} out of range for register '{e.register.name}' of size {e.register.size}"

namespace Register

/-- The register as it is shown, such as `c[8]`. -/
def text (r : Register) : String := indexed r.name r.size

/-- The bit at an index below the size. -/
def bit (r : Register) (index : UInt64) : Except IndexError Bit :=
  if index < r.size then .ok ⟨r.name, index⟩ else .error ⟨r, index⟩

/-- All bits of the register, in the order of their indices. -/
def bits (r : Register) : List Bit :=
  (List.range r.size.toNat).map fun i => ⟨r.name, UInt64.ofNat i⟩

/-- Whether a bit is one of the register's. -/
def contains (r : Register) (b : Bit) : Bool := b.register == r.name && b.index < r.size

end Register

end CallCircuit
