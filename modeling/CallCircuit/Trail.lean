import CallCircuit.Register
import CallCircuit.Wasm.Signature

/-!
# The trail of an operation

Operations leave a trail of entries, one for each thing they do that an observer may want to
know. An entry has a level and a text; `Entry.line` joins the two.
-/

namespace CallCircuit

/-- How much an entry matters. -/
inductive Level where
  | debug | info | warn
deriving DecidableEq, Repr

/-- The name of a level at the start of a line. -/
def Level.text : Level → String
  | .debug => "DEBUG"
  | .info => "INFO"
  | .warn => "WARN"

/-- What an operation did. -/
inductive Entry where
  | addingRegister (register : Register)
  | growingStates (before after : UInt64)
  | addingCommand (command : Command)
  | supportedFunction (name : String) (arity : Wasm.Arity)
  | unsupportedFunction (name : String) (signature : Wasm.Signature)
  | checkedModule (uid : String) (supported unsupported : Nat)
  | uncheckedCall (function uid : String)
deriving DecidableEq, Repr

namespace Entry

/-- The level of an entry. -/
def level : Entry → Level
  | .checkedModule .. => .info
  | .uncheckedCall .. => .warn
  | _ => .debug

/-- The wording of an entry. -/
def text : Entry → String
  | .addingRegister r => s!"adding register {r.text}"
  | .growingStates before after => s!"growing wasm state register from {before} to {after}"
  | .addingCommand c => s!"adding command {c.text}"
  | .supportedFunction name arity => s!"wasm function '{name}' has arity {arity.text}"
  | .unsupportedFunction name signature =>
    s!"wasm function '{name}' has an unsupported signature {signature.text}"
  | .checkedModule uid supported unsupported =>
    s!"checked wasm module {uid}: {supported} supported, {unsupported} unsupported function(s)"
  | .uncheckedCall function uid =>
    s!"adding call to '{function}' of unchecked wasm module {uid} without validation"

/-- The level and the wording of an entry in one line. -/
def line (e : Entry) : String := e.level.text ++ " " ++ e.text

end Entry

/-- A value with the trail of the updates made to it. -/
structure Draft (σ : Type) where
  value : σ
  trail : List Entry
deriving Repr

/-- An update of a value of type `σ` that may fail with `ε`. What it has done to the value and
what it has left on the trail when it fails stay. -/
abbrev Update (σ ε : Type) := ExceptT ε (StateM (Draft σ))

/-- What an update comes to. -/
structure Outcome (σ ε α : Type) where
  result : Except ε α
  value : σ
  trail : List Entry

namespace Update

variable {σ ε α : Type}

/-- The value as it stands. -/
def current : Update σ ε σ := do return (← get).value

/-- Replaces the value. -/
def put (value : σ) : Update σ ε Unit := modify fun d => { d with value }

/-- Leaves an entry on the trail. -/
def note (e : Entry) : Update σ ε Unit := modify fun d => { d with trail := d.trail ++ [e] }

/-- Leaves entries on the trail. -/
def noteAll (entries : List Entry) : Update σ ε Unit :=
  modify fun d => { d with trail := d.trail ++ entries }

/-- Goes on with a result that comes with a trail of its own. -/
def adopt {δ : Type} (fail : δ → ε) (made : Except δ α × List Entry) : Update σ ε α := do
  noteAll made.2
  match made.1 with
  | .ok a => return a
  | .error e => throw (fail e)

/-- Carries out an update on a value, with an empty trail. -/
def apply (u : Update σ ε α) (value : σ) : Outcome σ ε α :=
  let (result, d) := Id.run ((ExceptT.run u).run ⟨value, []⟩)
  ⟨result, d.value, d.trail⟩

/-- Carries out an update on a part of a larger value. Its entries join the trail, and the part
becomes what the update leaves, also when it fails. -/
def within {τ δ : Type} (part : τ → σ) (set : σ → τ → τ) (fail : ε → δ) (u : Update σ ε α) :
    Update τ δ α := do
  let out := u.apply (part (← current))
  modify fun d => ⟨set out.value d.value, d.trail ++ out.trail⟩
  match out.result with
  | .ok a => return a
  | .error e => throw (fail e)

end Update

end CallCircuit
