import CallCircuit.Circuit.Call
import CallCircuit.Document.Text

/-!
# Sessions

A session is a circuit that is being built, the modules it calls into, and a copy of an earlier
circuit to compare it with. `Session.answer` carries out one request; requests that fail leave
the circuit and all handles as they were, except that a load always takes a place among the
handles.
-/

namespace CallCircuit

open Wasm (Arity Bytes File FunctionTable Handle ModuleError)

/-- What a sequence of requests works on. -/
structure Session where
  circuit : Circuit := {}
  saved : Circuit := {}
  /-- The handles in the order of the loads; a load that failed has none. -/
  handles : List (Option Handle) := []
deriving DecidableEq, Repr, Inhabited

/-- Why a request has no answer. -/
inductive Fault where
  | circuit (failure : Failure)
  | module (error : ModuleError)
  | index (error : IndexError)
  /-- No handle stands at this place. -/
  | noHandle
deriving DecidableEq, Repr

/-- What a session can be asked for. Handles are named by their place among the loads. -/
inductive Request where
  | load (bytes : Bytes) (check : Bool) (intSize : UInt32)
  | loadFile (path : String) (file : File) (check : Bool) (intSize : UInt32)
  | check (handle : Nat)
  | handle (handle : Nat)
  | functions (handle : Nat)
  | unsupported (handle : Nat)
  | describe (handle : Nat)
  | report (handle : Nat)
  | accepts (handle : Nat) (function : String) (arity : Arity)
  /-- Starts over with an empty circuit. -/
  | clear
  /-- Starts over with an empty circuit of this name. -/
  | clearNamed (name : String)
  /-- Starts over with a circuit of this many bits. -/
  | clearWithBits (bitCount : UInt64)
  | addRegister (name : String) (size : UInt64)
  | register (name : String)
  | registerBit (name : String) (index : UInt64)
  | containsBit (bit : Bit)
  | bits
  | registers
  | slots
  | growSlots (least : UInt64)
  | addCall (handle : Nat) (function : String) (inputs outputs : List UInt32) (bits : List Bit)
      (slots : Option (List Slot)) (options : CallOptions)
  | addRegisterCall (handle : Nat) (function : String) (inputs outputs : List Register)
      (slots : Option (List Slot)) (options : CallOptions)
  | circuit
  | readCircuit (text : String)
  /-- Whether the text of the circuit reads back as the circuit. -/
  | readsBack
  | save
  | sameAsSaved
deriving Repr

/-- What a request is answered with. -/
inductive Answer where
  | done
  | truth (b : Bool)
  | count (n : UInt64)
  | text (s : String)
  | names (names : List String)
  | functions (table : FunctionTable)
  | report (table : FunctionTable) (unsupported : List String) (listing : String)
  | handle (h : Handle)
  | register (r : Option Register)
  | registers (rs : List Register)
  | bit (b : Bit)
  | bits (bs : List Bit)
  | slots (ss : List Slot)
  | command (c : Option Command)
  | circuit (c : Circuit)
deriving Repr

namespace Session

/-- An update of a session. -/
abbrev Action := Update Session Fault

/-- The circuit of the session. -/
def getCircuit : Action Circuit := do return (← Update.current).circuit

/-- Replaces the circuit of the session. -/
def putCircuit (c : Circuit) : Action Unit := do
  Update.put { ← Update.current with circuit := c }

/-- Edits the circuit of the session. -/
def edit {α : Type} (e : Edit α) : Action α :=
  e.within Session.circuit (fun c s => { s with circuit := c }) Fault.circuit

/-- The handle at a place. -/
def getHandle (place : Nat) : Action Handle := do
  match (← Update.current).handles[place]? with
  | some (some h) => return h
  | _ => throw .noHandle

/-- The answer to a question about a handle. -/
def ask {α : Type} (place : Nat) (question : Handle → Except ModuleError α) : Action α := do
  match question (← getHandle place) with
  | .ok a => return a
  | .error e => throw (.module e)

/-- Gives a loaded handle the next place, which stays empty if the load failed. -/
def addHandle (loaded : Except ModuleError Handle × List Entry) : Action Handle := do
  let s ← Update.current
  Update.put { s with handles := s.handles ++ [loaded.1.toOption] }
  Update.adopt Fault.module loaded

/-- Checks the handle at a place. -/
def checkHandle (place : Nat) : Action Handle := do
  let h ← getHandle place
  Handle.check.within (fun _ => h) (fun h s => { s with handles := s.handles.set place (some h) })
    Fault.module
  getHandle place

/-- The bit of a register of the circuit. -/
def registerBit (name : String) (index : UInt64) : Action Bit := do
  match (← getCircuit).register? name with
  | none => throw (.circuit (.refused (.unknownRegister ⟨name, 0⟩)))
  | some r =>
    match r.bit index with
    | .ok b => return b
    | .error e => throw (.index e)

/-- The last command of the circuit. -/
def lastCommand : Action (Option Command) := do return (← getCircuit).commands.getLast?

/-- Carries out a request. -/
def answer : Request → Action Answer
  | .load bytes check intSize => .handle <$> addHandle (Handle.load bytes check intSize)
  | .loadFile path file check intSize =>
    .handle <$> addHandle (Handle.loadFile path file check intSize)
  | .check place => .handle <$> checkHandle place
  | .handle place => .handle <$> getHandle place
  | .functions place => .functions <$> ask place Handle.functions
  | .unsupported place => .names <$> ask place Handle.unsupported
  | .describe place => .text <$> ask place Handle.describe
  | .report place =>
    return .report (← ask place Handle.functions) (← ask place Handle.unsupported)
      (← ask place Handle.describe)
  | .accepts place function arity =>
    return .truth ((← getHandle place).accepts function arity)
  | .clear => do
    putCircuit {}
    return .done
  | .clearNamed name => do
    putCircuit { name }
    return .done
  | .clearWithBits bitCount => do
    putCircuit (← Update.adopt Fault.circuit (Circuit.ofBitCount bitCount))
    return .done
  | .addRegister name size => return .register (← edit (Edit.addRegister name size))
  | .register name => return .register ((← getCircuit).register? name)
  | .registerBit name index => .bit <$> registerBit name index
  | .containsBit bit => return .truth ((← getCircuit).containsBit bit)
  | .bits => return .bits (← getCircuit).bits
  | .registers => return .registers (← getCircuit).registers
  | .slots => do
    let c ← getCircuit
    .slots <$> Update.adopt Fault.circuit (c.collectSlots, [])
  | .growSlots least => .count <$> edit (Edit.growSlots least)
  | .addCall place function inputs outputs bits slots options => do
    let h ← getHandle place
    edit (Edit.addCall function h inputs outputs bits slots options)
    .command <$> lastCommand
  | .addRegisterCall place function inputs outputs slots options => do
    let h ← getHandle place
    edit (Edit.addRegisterCall function h inputs outputs slots options)
    .command <$> lastCommand
  | .circuit => return .circuit (← getCircuit)
  | .readCircuit text => do
    putCircuit (← Update.adopt Fault.circuit (Circuit.ofText text))
    return .done
  | .readsBack => do
    let c ← getCircuit
    let read ← Update.adopt Fault.circuit (Circuit.ofText c.toText)
    return .truth (read = c)
  | .save => do
    let s ← Update.current
    Update.put { s with saved := s.circuit }
    return .done
  | .sameAsSaved => do
    let s ← Update.current
    return .truth (s.circuit = s.saved)

/-- Carries out requests in order, each on what the one before leaves. -/
def answers (s : Session) : List Request → List (Outcome Session Fault Answer)
  | [] => []
  | request :: requests =>
    let out := (answer request).apply s
    out :: answers out.value requests

end Session

end CallCircuit
