import CallCircuit.Capacity

/-!
# Conditions and the settings of a call

A call may stand under a condition, given either as a predicate on a bit or register or as
condition bits with the value they must hold. `CallOptions.guard` turns both forms into a
`Guard`, bits with a value, and refuses every other combination of the settings. A condition on a
register first makes the list of its bits, and only then looks at how many there are.
-/

namespace CallCircuit

/-- The most condition bits that one conditional operation can have. -/
def maxConditionWidth : Nat := 64

/-- Whether `width` bits can hold `value`. Up to 64 bits are allowed, and 64 bits hold every
value. -/
def fitsWidth (value : UInt64) (width : Nat) : Bool :=
  width ≤ maxConditionWidth && (width == maxConditionWidth || value >>> UInt64.ofNat width == 0)

/-- A refusal when `width` bits cannot hold `value`. -/
def checkConditionValue (value : UInt64) (width : Nat) : Except CircuitError Unit :=
  if fitsWidth value width then .ok () else .error (.conditionOutOfRange value width)

/-- A predicate that a call may stand under. -/
inductive Condition where
  /-- The bit is 1. -/
  | isSet (bit : Bit)
  /-- The bit is 0. -/
  | isClear (bit : Bit)
  /-- The register, read as an unsigned number, holds the value. -/
  | registerEquals (register : Register) (value : UInt64)
deriving DecidableEq, Repr

/-- Condition bits, least significant first, and the value they must hold. -/
structure Guard where
  bits : List Bit
  value : UInt64
deriving DecidableEq, Repr

/-- The guard of these bits and this value, refused when the bits cannot hold it. -/
def Guard.ofBits (bits : List Bit) (value : UInt64) : Except CircuitError Guard := do
  checkConditionValue value bits.length
  return ⟨bits, value⟩

/-- The guard that holds exactly when the condition does. -/
def Condition.guard : Condition → Except Failure Guard
  | .isSet bit => Failure.lift (Guard.ofBits [bit] 1)
  | .isClear bit => Failure.lift (Guard.ofBits [bit] 0)
  | .registerEquals register value => do
    let bits ← register.collectBits
    Failure.lift (Guard.ofBits bits value)

/-- The optional settings of a call. -/
structure CallOptions where
  group : Option String := none
  condition : Option Condition := none
  conditionBits : Option (List Bit) := none
  conditionValue : Option UInt64 := none
deriving DecidableEq, Repr, Inhabited

/-- The guard of a call, if it has one. A condition excludes condition bits and a condition
value, and these two come together. -/
def CallOptions.guard (o : CallOptions) : Except Failure (Option Guard) :=
  match o.condition, o.conditionBits, o.conditionValue with
  | none, none, none => .ok none
  | some condition, none, none => some <$> condition.guard
  | some _, _, _ => .error (.refused (.conflictingOptions .conditionTwice))
  | none, some bits, some value => some <$> Failure.lift (Guard.ofBits bits value)
  | none, _, _ => .error (.refused (.conflictingOptions .conditionHalf))

/-- A refusal when the counts of an operation disagree with each other, the outermost layer
first. -/
def Operation.check : Operation → Except CircuitError Unit
  | .call c => if c.countsAgree then .ok () else .error (.inconsistent (.counts c))
  | .conditional op width value => do
    checkConditionValue value width.toNat
    op.check

end CallCircuit
