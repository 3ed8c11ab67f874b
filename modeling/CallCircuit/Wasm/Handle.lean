import CallCircuit.Wasm.Exports
import CallCircuit.Digest.Sha256

/-!
# Handles on modules

A handle keeps the bytes of a module and, once `Handle.check` has read them, the table of its
exports. Before that the handle accepts every call. A check that fails leaves the handle as it
was, and one that has succeeded is not made again.
-/

namespace CallCircuit.Wasm

/-- A module that circuits call into. -/
structure Handle where
  bytes : Bytes
  /-- The lowercase hexadecimal SHA-256 digest of the bytes. -/
  uid : String
  /-- The size of the integers that the functions exchange. -/
  intSize : IntSize
  /-- The exports, once the module is checked. -/
  exports : Option ExportTable := none
deriving DecidableEq, Repr

/-- What there is at a path. -/
inductive File where
  | missing
  | directory
  /-- Something that cannot be read, and why. -/
  | unreadable (reason : String)
  | contents (bytes : Bytes)
deriving DecidableEq, Repr

namespace Handle

/-- Whether the signatures of the module have been read. -/
def checked (h : Handle) : Bool := h.exports.isSome

/-- Reads the signatures of the exported functions, unless that has been done. -/
def check : Update Handle ModuleError Unit := do
  let h ← Update.current
  if h.checked then return
  match Payload.ofFile? h.bytes with
  | none => throw .malformed
  | some payloads =>
    let table ← ExportTable.ofSpaces (IndexSpaces.ofPayloads payloads) h.intSize.valueType
    match table.checkInit with
    | .error e => throw e
    | .ok () =>
      Update.note (.checkedModule h.uid table.supported.length table.unsupported.length)
      Update.put { h with exports := some table }

/-- The unchecked handle on these bytes. -/
def ofBytes (bytes : Bytes) (bits : UInt32) : Except ModuleError Handle :=
  match IntSize.ofBits? bits with
  | some intSize => .ok { bytes, uid := Sha256.hexDigest bytes, intSize }
  | none => .error (.invalidIntSize bits)

/-- A handle on these bytes, checked at once if asked for, with the trail of the check. -/
def load (bytes : Bytes) (check : Bool) (bits : UInt32) : Except ModuleError Handle × List Entry :=
  match ofBytes bytes bits with
  | .error e => (.error e, [])
  | .ok h =>
    if check then
      let out := Handle.check.apply h
      (out.result.map fun _ => out.value, out.trail)
    else (.ok h, [])

/-- A handle on what there is at a path, as `load` makes it. -/
def loadFile (path : String) (file : File) (check : Bool) (bits : UInt32) :
    Except ModuleError Handle × List Entry :=
  match file with
  | .missing => (.error (.fileNotFound path), [])
  | .directory => (.error (.unreadableFile "Is a directory (os error 21)"), [])
  | .unreadable reason => (.error (.unreadableFile reason), [])
  | .contents bytes => load bytes check bits

/-- Whether the module has a function of this name and arity. An unchecked handle accepts every
call. -/
def accepts (h : Handle) (function : String) (arity : Arity) : Bool :=
  match h.exports with
  | none => true
  | some table => table.supported.find? function == some arity

/-- The exports of a checked module. -/
def exportTable (h : Handle) : Except ModuleError ExportTable :=
  match h.exports with
  | none => .error .unchecked
  | some table => .ok table

/-- The functions that a circuit can call, with their arities. -/
def functions (h : Handle) : Except ModuleError FunctionTable := (·.supported) <$> h.exportTable

/-- The exported functions that a circuit cannot call. -/
def unsupported (h : Handle) : Except ModuleError (List String) :=
  (·.unsupported) <$> h.exportTable

/-- A listing of the exported functions, a line for each. -/
def describe (h : Handle) : Except ModuleError String := do
  let table ← h.exportTable
  let int := h.intSize.valueType.text
  let supported := table.supported.map fun (name, arity) =>
    s!"function '{name}' with {arity.params} {int} parameter(s) and " ++
      s!"{arity.results} {int} return value(s)\n"
  let unsupported := table.unsupported.map fun name =>
    s!"unsupported function with invalid parameter or result type: '{name}'\n"
  return s!"Functions in wasm module with the uid {h.uid}:\n" ++
    String.join supported ++ String.join unsupported

end Handle

end CallCircuit.Wasm
