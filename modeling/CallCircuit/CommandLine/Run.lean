import CallCircuit.Circuit.Call
import CallCircuit.CommandLine.Arguments
import CallCircuit.CommandLine.Report
import CallCircuit.Document.Text

/-!
# Running an invocation

`Invocation.run` loads the module and does what is asked with it: list its functions, look for
one of them, or print a circuit with a single call. It gives what the program prints, or a
report; only a count that leaves the range of a machine word, or a list without room, is neither.
-/

namespace CallCircuit.CommandLine

open Wasm (File Handle ModuleError)

/-- What a run comes to. -/
inductive Exit where
  | printed (text : String)
  | failed (report : Report)
  | overflow
  | capacity
deriving DecidableEq, Repr

/-- The exit code of a run. -/
def Exit.code : Exit → UInt32
  | .printed _ => 0
  | .failed _ => 1
  | .overflow | .capacity => 101

/-- The report of a module that could not be loaded. -/
def loadReport (path : String) (e : ModuleError) : Report :=
  ⟨s!"failed to load {path}", e.message :: e.cause.toList⟩

/-- What `inspect` prints. -/
def inspection (path : String) (h : Handle) : String :=
  s!"Module: {path}\nUid: {h.uid}\n" ++
    match h.describe with
    | .ok listing => listing
    | .error _ => "Function signatures not checked\n"

/-- The answer to `check-function`. -/
def verdict (h : Handle) (name : String) (inputs outputs : UInt64) : Exit :=
  let arity := s!"with {inputs} input(s) and {outputs} output(s)"
  if h.accepts name ⟨inputs.toNat, outputs.toNat⟩ then
    .printed s!"'{name}' {arity} found in {h.uid}\n"
  else .failed ⟨s!"{name} {arity} not found in {h.uid}", []⟩

/-- Builds the circuit of a single call: one register of as many bits as the widths add up to,
all of them bound to the call in order. Widths are checked before there are any bits. -/
def singleCall (h : Handle) (name : String) (inputs outputs : List UInt32)
    (slots : Option (List UInt64)) (group : Option String) : Edit Unit := do
  Edit.checked (Failure.lift (checkWidths inputs outputs h.intSize.bits))
  Edit.pushDefaultRegister (UInt64.ofNat (totalWidth (inputs ++ outputs)))
  let bits := (← Update.current).bits
  Edit.addCall name h inputs outputs bits (slots.map (·.map Slot.mk)) { group }

/-- What `call` prints. -/
def callResult (out : Outcome Circuit Failure Unit) : Exit :=
  match out.result with
  | .ok () => .printed (out.value.toText ++ "\n")
  | .error (.refused e) => .failed ⟨e.message, []⟩
  | .error .overflow => .overflow
  | .error .capacity => .capacity

/-- What the job comes to on a loaded module. -/
def Job.run (path : String) (h : Handle) : Job → Exit
  | .inspect => .printed (inspection path h)
  | .checkFunction name inputs outputs => verdict h name inputs outputs
  | .call name inputs outputs slots group =>
    callResult ((singleCall h name inputs outputs slots group).apply {})

/-- What the invocation comes to when this is what there is at its path. -/
def Invocation.run (i : Invocation) (file : File) : Exit :=
  match (Handle.loadFile i.path file i.check i.intSize).1 with
  | .ok h => i.job.run i.path h
  | .error e => .failed (loadReport i.path e)

end CallCircuit.CommandLine
