import CallCircuit.Operation

/-!
# Value types and function signatures

A circuit exchanges integers of one size with a module, so it can call a function whose
parameters and results are all of that integer type, with at most one result.
-/

namespace CallCircuit.Wasm

/-- The type of a parameter or result. All reference types are one. -/
inductive ValueType where
  | i32 | i64 | f32 | f64 | v128 | ref
deriving DecidableEq, Repr, Inhabited

namespace ValueType

/-- The name of the type in the text format of modules. -/
def text : ValueType → String
  | .i32 => "i32"
  | .i64 => "i64"
  | .f32 => "f32"
  | .f64 => "f64"
  | .v128 => "v128"
  | .ref => "ref"

/-- The name of the type in lines of the trail. -/
def traceText : ValueType → String
  | .i32 => "I32"
  | .i64 => "I64"
  | .f32 => "F32"
  | .f64 => "F64"
  | .v128 => "V128"
  | .ref => "Ref"

end ValueType

/-- The sizes that the integers of a module can have. -/
inductive IntSize where
  | bits32 | bits64
deriving DecidableEq, Repr, Inhabited

namespace IntSize

/-- The size of this many bits. -/
def ofBits? (bits : UInt32) : Option IntSize :=
  if bits = 32 then some .bits32 else if bits = 64 then some .bits64 else none

/-- The number of bits. -/
def bits : IntSize → UInt32
  | .bits32 => 32
  | .bits64 => 64

/-- The integer type of this size. -/
def valueType : IntSize → ValueType
  | .bits32 => .i32
  | .bits64 => .i64

end IntSize

/-- How many parameters and results a function has. -/
structure Arity where
  params : Nat
  results : Nat
deriving DecidableEq, Repr, Inhabited

/-- The arity as lines of the trail show it, such as `(2, 1)`. -/
def Arity.text (a : Arity) : String := s!"({a.params}, {a.results})"

/-- The types of the parameters and results of a function. -/
structure Signature where
  params : List ValueType
  results : List ValueType
deriving DecidableEq, Repr, Inhabited

namespace Signature

/-- The numbers of parameters and results. -/
def arity (s : Signature) : Arity := ⟨s.params.length, s.results.length⟩

/-- Whether a circuit can call such a function when integers have type `int`. -/
def supports (s : Signature) (int : ValueType) : Bool :=
  s.results.length ≤ 1 && (s.params ++ s.results).all (· == int)

/-- The signature as lines of the trail show it. -/
def text (s : Signature) : String :=
  let params := bracketed (s.params.map ValueType.traceText)
  let results := bracketed (s.results.map ValueType.traceText)
  "FunctionSignature \x7b params: " ++ params ++ ", results: " ++ results ++ " \x7d"

end Signature

end CallCircuit.Wasm
