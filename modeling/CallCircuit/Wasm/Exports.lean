import CallCircuit.Wasm.Payload
import CallCircuit.Trail

/-!
# The functions that a module exports

An export names a function by its index, the function has a type index, and the type at that
index is a signature. `IndexSpaces.ofPayloads` lays out the three sequences that these indices
refer to, `IndexSpaces.signature` follows an export through them, and `ExportTable.ofSpaces`
sorts all exports into those that a circuit can call and the others.
-/

namespace CallCircuit.Wasm

/-- The name of the function that every checked module has to export. -/
def initFunction : String := "init"

/-- Why a module cannot be loaded or asked about. -/
inductive ModuleError where
  | invalidIntSize (bits : UInt32)
  | fileNotFound (path : String)
  | unreadableFile (reason : String)
  /-- The bytes are no module. -/
  | malformed
  /-- An export refers to a function that the module does not have. -/
  | unknownFunction (name : String) (index : UInt32)
  /-- An exported function refers to a type that the module does not have or that is no function
  type. -/
  | unknownType (name : String) (index : UInt32)
  | missingInit
  | invalidInit (arity : Arity)
  /-- The signatures of the module have not been read. -/
  | unchecked
deriving DecidableEq, Repr

namespace ModuleError

/-- What is wrong beneath the error, where the error only passes it on. -/
def cause : ModuleError → Option String
  | .unreadableFile reason => some reason
  | .malformed => some "malformed binary"
  | _ => none

/-- The wording of an error. -/
def message : ModuleError → String
  | .invalidIntSize bits =>
    s!"given integer length {bits} not valid, only 32 and 64 are allowed"
  | .fileNotFound path => s!"wasm file not found at given path: {path}"
  | .unreadableFile reason => s!"failed to read wasm file: {reason}"
  | .malformed => "failed to parse wasm module: malformed binary"
  | .unknownFunction name index =>
    s!"invalid wasm module: export '{name}' refers to unknown function {index}"
  | .unknownType name index =>
    s!"invalid wasm module: function '{name}' refers to unknown function type {index}"
  | .missingInit => s!"wasm module needs to contain a function called '{initFunction}'"
  | .invalidInit arity =>
    "init function should not have any parameters or results, " ++
      s!"found {arity.params} parameter(s) and {arity.results} result(s)"
  | .unchecked =>
    "function signatures of an unchecked wasm module are unknown, call check() first"

end ModuleError

/-- Function names with their arities, ascending by name, each name once. -/
abbrev FunctionTable := List (String × Arity)

namespace FunctionTable

/-- The table in which `name` has this arity and all else is as before. -/
def insert (name : String) (arity : Arity) : FunctionTable → FunctionTable
  | [] => [(name, arity)]
  | (n, a) :: rest =>
    if name < n then (name, arity) :: (n, a) :: rest
    else if name = n then (name, arity) :: rest
    else (n, a) :: insert name arity rest

/-- The arity of a name. -/
def find? (table : FunctionTable) (name : String) : Option Arity := table.lookup name

end FunctionTable

/-- The sequences that the indices in a module refer to, and its exported functions. -/
structure IndexSpaces where
  /-- The types; `none` is a type that is no function type. -/
  types : List (Option Signature)
  /-- The type index of each function, imported or not, in file order. -/
  functions : List UInt32
  /-- The name and function index of each exported function, in file order. -/
  exports : List (String × UInt32)
deriving DecidableEq, Repr

namespace IndexSpaces

/-- The sequences that the payloads of a module add up to. -/
def ofPayloads (payloads : List Payload) : IndexSpaces where
  types := payloads.flatMap fun
    | .types entries => entries
    | _ => []
  functions := payloads.flatMap fun
    | .imports entries => entries.filterMap id
    | .functions entries => entries
    | _ => []
  exports := payloads.flatMap fun
    | .exports entries => entries.filterMap id
    | _ => []

/-- The signature of an exported function. Its function index is looked at before its type
index. -/
def signature (m : IndexSpaces) (name : String) (index : UInt32) :
    Except ModuleError Signature :=
  match m.functions[index.toNat]? with
  | none => .error (.unknownFunction name index)
  | some typeIndex =>
    match m.types[typeIndex.toNat]? with
    | some (some signature) => .ok signature
    | _ => .error (.unknownType name typeIndex)

end IndexSpaces

/-- The exported functions of a module, by whether a circuit can call them. -/
structure ExportTable where
  /-- The functions that a circuit can call. The last export of a name counts. -/
  supported : FunctionTable := []
  /-- The names of the others in file order, as often as they occur. -/
  unsupported : List String := []
deriving DecidableEq, Repr, Inhabited

namespace ExportTable

/-- The table with one more function. -/
def add (table : ExportTable) (int : ValueType) (name : String) (s : Signature) : ExportTable :=
  if s.supports int then { table with supported := table.supported.insert name s.arity }
  else { table with unsupported := table.unsupported ++ [name] }

/-- The entry that the trail has for an exported function. -/
def entry (int : ValueType) (name : String) (s : Signature) : Entry :=
  if s.supports int then .supportedFunction name s.arity else .unsupportedFunction name s

/-- The table of these exports after those in `table`, with an entry for each. It ends at the
first export that does not resolve. -/
def extend {σ : Type} (m : IndexSpaces) (int : ValueType) (table : ExportTable) :
    List (String × UInt32) → Update σ ModuleError ExportTable
  | [] => return table
  | (name, index) :: rest => do
    match m.signature name index with
    | .error e => throw e
    | .ok s =>
      Update.note (entry int name s)
      extend m int (table.add int name s) rest

/-- The table of all exports of a module. -/
def ofSpaces {σ : Type} (m : IndexSpaces) (int : ValueType) : Update σ ModuleError ExportTable :=
  extend m int {} m.exports

/-- A module has to export a supported `init` without parameters and results. -/
def checkInit (table : ExportTable) : Except ModuleError Unit :=
  match table.supported.find? initFunction with
  | none => .error .missingInit
  | some arity => if arity = ⟨0, 0⟩ then .ok () else .error (.invalidInit arity)

end ExportTable

end CallCircuit.Wasm
