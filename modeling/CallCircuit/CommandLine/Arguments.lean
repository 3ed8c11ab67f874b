/-!
# Command line arguments

The program has three subcommands with options of their own. `parse` reads the arguments from
left to right and ends with the first request for help or the first mistake. An option has its
value attached or in the next argument, which must not look like an option; options that take a
list may be repeated.
-/

namespace CallCircuit.CommandLine

/-- The subcommands. -/
inductive Subcommand where
  | inspect | checkFunction | call
deriving DecidableEq, Repr

/-- The options, with or without a value. -/
inductive Key where
  | wasmFile | name | inputs | outputs | widthsIn | widthsOut | slots | opgroup | intSize | noCheck
deriving DecidableEq, Repr

/-- The name of a subcommand. -/
def Subcommand.text : Subcommand → String
  | .inspect => "inspect"
  | .checkFunction => "check-function"
  | .call => "call"

/-- The subcommand of a name. -/
def Subcommand.ofText? (s : String) : Option Subcommand :=
  [.inspect, .checkFunction, .call].find? (·.text == s)

/-- The options of a subcommand. -/
def Subcommand.keys : Subcommand → List Key
  | .inspect => [.wasmFile, .intSize, .noCheck]
  | .checkFunction => [.wasmFile, .name, .inputs, .outputs, .intSize]
  | .call => [.wasmFile, .name, .widthsIn, .widthsOut, .slots, .opgroup, .intSize, .noCheck]

namespace Key

/-- The name of an option after two dashes. -/
def long : Key → String
  | .wasmFile => "wasm-file"
  | .name => "name"
  | .inputs => "inputs"
  | .outputs => "outputs"
  | .widthsIn => "widths-in"
  | .widthsOut => "widths-out"
  | .slots => "slots"
  | .opgroup => "opgroup"
  | .intSize => "int-size"
  | .noCheck => "no-check"

/-- The letter of an option after one dash. -/
def short? : Key → Option Char
  | .wasmFile => some 'w'
  | .name => some 'n'
  | _ => none

/-- Whether an option has a value. -/
def hasValue (k : Key) : Bool := k != .noCheck

end Key

/-! ## Values -/

/-- The number of a run of digits. -/
def digits? : List Char → Option Nat
  | [] => none
  | cs => if cs.all Char.isDigit then some (Nat.ofDigitChars 10 cs 0) else none

/-- A size, which may have a plus sign. -/
def size? (s : String) : Option UInt64 := do
  let n ← match s.toList with
    | '+' :: cs => digits? cs
    | cs => digits? cs
  if n < UInt64.size then some (UInt64.ofNat n) else none

/-- A width, which may have a sign. Of the negative numbers only minus zero is one. -/
def width? (s : String) : Option UInt32 := do
  let n ← match s.toList with
    | '+' :: cs => digits? cs
    | '-' :: cs => (digits? cs).filter (· == 0)
    | cs => digits? cs
  if n < UInt32.size then some (UInt32.ofNat n) else none

/-- The parts of a list between its separators. -/
def splitAt (separator : Char) : List Char → List (List Char)
  | [] => [[]]
  | c :: cs =>
    if c = separator then [] :: splitAt separator cs
    else
      match splitAt separator cs with
      | part :: parts => (c :: part) :: parts
      | [] => [[c]]

/-- A list of values with commas between them, of which none may be missing. -/
def commaList? {α : Type} (item? : String → Option α) (s : String) : Option (List α) :=
  (splitAt ',' s.toList).mapM fun part => item? (String.ofList part)

/-! ## Settings -/

/-- The values of the options read so far. -/
structure Settings where
  wasmFile : Option String := none
  name : Option String := none
  inputs : Option UInt64 := none
  outputs : Option UInt64 := none
  widthsIn : List UInt32 := []
  widthsOut : List UInt32 := []
  slots : Option (List UInt64) := none
  opgroup : Option String := none
  intSize : Option UInt32 := none
  noCheck : Bool := false
deriving DecidableEq, Repr, Inhabited

/-- The first value of an option that may be given only once. -/
def once {α : Type} (old : Option α) (value : Option α) : Option (Option α) :=
  if old.isSome then none else some <$> value

namespace Settings

/-- The settings with one more option, which is refused if it may not be given again or if its
value is not of its kind. -/
def set (s : Settings) (value : String) : Key → Option Settings
  | .wasmFile => return { s with wasmFile := ← once s.wasmFile (some value) }
  | .name => return { s with name := ← once s.name (some value) }
  | .inputs => return { s with inputs := ← once s.inputs (size? value) }
  | .outputs => return { s with outputs := ← once s.outputs (size? value) }
  | .widthsIn => return { s with widthsIn := s.widthsIn ++ (← commaList? width? value) }
  | .widthsOut => return { s with widthsOut := s.widthsOut ++ (← commaList? width? value) }
  | .slots => return { s with slots := some (s.slots.getD [] ++ (← commaList? size? value)) }
  | .opgroup => return { s with opgroup := ← once s.opgroup (some value) }
  | .intSize => return { s with intSize := ← once s.intSize (width? value) }
  | .noCheck => if s.noCheck then none else some { s with noCheck := true }

end Settings

/-- The integer size when none is given. -/
def defaultIntSize : UInt32 := 32

/-- What the program is asked to do with a module. -/
inductive Job where
  | inspect
  | checkFunction (name : String) (inputs outputs : UInt64)
  | call (name : String) (inputs outputs : List UInt32) (slots : Option (List UInt64))
      (group : Option String)
deriving DecidableEq, Repr

/-- A job with the module it is about. -/
structure Invocation where
  path : String
  intSize : UInt32
  /-- Whether to read the signatures of the module. -/
  check : Bool
  job : Job
deriving DecidableEq, Repr

/-- The job that the settings make up, once all that it needs is there. -/
def Settings.job? (s : Settings) : Subcommand → Option Job
  | .inspect => some .inspect
  | .checkFunction => return .checkFunction (← s.name) (← s.inputs) (← s.outputs)
  | .call => return .call (← s.name) s.widthsIn s.widthsOut s.slots s.opgroup

/-- The invocation that the settings make up, once all that it needs is there. -/
def Settings.invocation? (s : Settings) (sub : Subcommand) : Option Invocation :=
  return {
    path := ← s.wasmFile
    intSize := s.intSize.getD defaultIntSize
    check := !s.noCheck
    job := ← s.job? sub }

/-! ## Arguments -/

/-- Why there is nothing to run. -/
inductive Ending where
  | help | version | misuse
deriving DecidableEq, Repr

/-- The form of an argument. -/
inductive Word where
  | plain
  /-- Two dashes: no options after this. -/
  | terminator
  | long (name : String) (value : Option String)
  | short (letter : Char) (value : Option String)
deriving DecidableEq, Repr

/-- The name and the value around the first equality sign. -/
def assignment (cs : List Char) : String × Option String :=
  let name := String.ofList (cs.takeWhile (· != '='))
  match cs.dropWhile (· != '=') with
  | [] => (name, none)
  | _ :: value => (name, some (String.ofList value))

/-- The value attached to a letter, with or without an equality sign. -/
def attached : List Char → Option String
  | [] => none
  | '=' :: value => some (String.ofList value)
  | value => some (String.ofList value)

/-- The form of an argument. A single dash is a plain word. -/
def Word.ofText (s : String) : Word :=
  match s.toList with
  | ['-', '-'] => .terminator
  | '-' :: '-' :: cs =>
    let (name, value) := assignment cs
    .long name value
  | '-' :: c :: cs => .short c (attached cs)
  | _ => .plain

/-- The option of a word, with the value attached to it. Help comes before all else. -/
def Subcommand.option (sub : Subcommand) : Word → Except Ending (Key × Option String)
  | .long "help" none => .error .help
  | .short 'h' _ => .error .help
  | .long name value =>
    match sub.keys.find? (·.long == name) with
    | some key => .ok (key, value)
    | none => .error .misuse
  | .short letter value =>
    match sub.keys.find? (·.short? == some letter) with
    | some key => .ok (key, value)
    | none => .error .misuse
  | _ => .error .misuse

/-- Takes up an option, or reports misuse. -/
def Settings.take (s : Settings) (key : Key) (value : String) : Except Ending Settings :=
  match s.set value key with
  | some s => .ok s
  | none => .error .misuse

/-- The settings that the arguments of a subcommand make up. An option that has come without its
value is `pending`, and the next argument is the value. -/
def Subcommand.settings (sub : Subcommand) (s : Settings) (pending : Option Key) :
    List String → Except Ending Settings
  | [] => if pending.isSome then .error .misuse else .ok s
  | arg :: args =>
    match pending, Word.ofText arg with
    | some key, .plain => do sub.settings (← s.take key arg) none args
    | some _, _ => .error .misuse
    | none, .terminator => if args.isEmpty then .ok s else .error .misuse
    | none, word => do
      let (key, value) ← sub.option word
      match key.hasValue, value with
      | true, some value => sub.settings (← s.take key value) none args
      | true, none => sub.settings s (some key) args
      | false, some _ => .error .misuse
      | false, none => sub.settings (← s.take key "") none args

/-- What the arguments ask for. -/
def parse : List String → Except Ending Invocation
  | [] => .error .misuse
  | arg :: args =>
    match Word.ofText arg with
    | .long "help" none => .error .help
    | .long "version" none => .error .version
    | .short 'h' _ => .error .help
    | .short 'V' _ => .error .version
    | .plain =>
      match Subcommand.ofText? arg with
      | some sub => do
        match (← sub.settings {} none args).invocation? sub with
        | some invocation => .ok invocation
        | none => .error .misuse
      | none =>
        if arg = "help" then
          match args with
          | [] => .error .help
          | [topic] =>
            if topic = "help" || (Subcommand.ofText? topic).isSome then .error .help
            else .error .misuse
          | _ => .error .misuse
        else .error .misuse
    | _ => .error .misuse

end CallCircuit.CommandLine
