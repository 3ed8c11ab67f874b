import CallCircuit.Error

/-!
# Room for lists

The elements of a list take up bytes, and no list can take up more than `maxListBytes`. A list that
is made of a register, with a bit for each index, may be one that there is no room for. So whoever
makes it asks for room first, before there is any element. How much memory there really is does not
come into it: every list within the limit is taken to have room.
-/

namespace CallCircuit

/-- The most bytes that the elements of a list can take up. -/
def maxListBytes : Nat := 9223372036854775807

/-- The bytes of a bit in a list: those of the index, and those that lead to the name. -/
def bitBytes : Nat := 32

/-- The bytes of a slot in a list. -/
def slotBytes : Nat := 8

/-- Whether there can be room for this many elements of a size. -/
def hasRoom (count bytes : Nat) : Bool := count * bytes ≤ maxListBytes

/-- A failure when there is no room for this many elements of a size. -/
def checkRoom (count bytes : Nat) : Except Failure Unit :=
  if hasRoom count bytes then .ok () else .error .capacity

namespace Register

/-- A failure when there is no room for the bits of the register. -/
def checkRoom (r : Register) : Except Failure Unit := CallCircuit.checkRoom r.size.toNat bitBytes

/-- The bits of the register, if there is room for them. -/
def collectBits (r : Register) : Except Failure (List Bit) := do
  r.checkRoom
  return r.bits

end Register

end CallCircuit
