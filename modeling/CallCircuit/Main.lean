import CallCircuit.CommandLine.Run

/-!
# The program

Reads the arguments and the module, runs the invocation, and prints what it comes to.
-/

namespace CallCircuit

open CommandLine Wasm

/-- What the program says of itself. -/
def usageText : String :=
  "Usage: callcircuit inspect -w FILE [--int-size BITS] [--no-check]\n" ++
  "       callcircuit check-function -w FILE -n NAME --inputs N --outputs N [--int-size BITS]\n" ++
  "       callcircuit call -w FILE -n NAME [--widths-in LIST] [--widths-out LIST] [--slots LIST]\n" ++
  "                        [--opgroup NAME] [--int-size BITS] [--no-check]\n"

/-- The name and version of the program. -/
def versionText : String := "callcircuit 0.1.0\n"

/-- The operating system's code for a directory where a file is expected. -/
def isDirectoryCode : UInt32 := 21

/-- What there is at a path. A path that leads through a file, or that no file can have, ends
nowhere. -/
def readFile (path : String) : IO File := do
  try
    return .contents (← IO.FS.readBinFile path).toList
  catch e =>
    match e with
    | .noFileOrDirectory .. | .invalidArgument .. => return .missing
    | .inappropriateType _ code _ =>
      return if code = isDirectoryCode then .directory else .missing
    | .permissionDenied .. => return .unreadable "Permission denied (os error 13)"
    | _ => return .unreadable (toString e)

/-- Prints what a run comes to, and gives the exit code. -/
def finish (out : CommandLine.Exit) : IO UInt32 := do
  match out with
  | .printed text => IO.print text
  | .failed report => IO.eprint report.text
  | .overflow => IO.eprintln Failure.overflow.message
  | .capacity => IO.eprintln Failure.capacity.message
  return out.code

end CallCircuit

open CallCircuit CommandLine in
/-- The program. -/
def main (args : List String) : IO UInt32 := do
  match parse args with
  | .ok invocation => finish (invocation.run (← readFile invocation.path))
  | .error .help =>
    IO.print usageText
    return 0
  | .error .version =>
    IO.print versionText
    return 0
  | .error .misuse =>
    IO.eprint usageText
    return 2
