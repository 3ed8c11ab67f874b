import CallCircuit.Document.Decode
import CallCircuit.Document.Encode
import CallCircuit.Json.Reader
import CallCircuit.Json.Writer

/-!
# Circuits as texts

A circuit is written as an indented document. `Circuit.ofText` reads one back and holds it
against the same checks as `Description.build`; operations and commands on their own are read
without checks.
-/

namespace CallCircuit

/-- What a text describes with nothing after it. -/
def Json.readAll? {α : Type} (value? : Json → Option α) (s : String) : Option α :=
  match Json.read? s with
  | some (j, []) => value? j
  | _ => none

/-- The operation that a text describes. -/
def Operation.ofText? (s : String) : Option Operation := Json.readAll? (Operation.ofJson? maxDepth) s

/-- The text of an operation, on one line. -/
def Operation.toText (op : Operation) : String := op.toJson.write .compact

/-- The command that a text describes. -/
def Command.ofText? (s : String) : Option Command :=
  Json.readAll? (Command.ofJson? (maxDepth - 1)) s

/-- The text of a command, on one line. -/
def Command.toText (c : Command) : String := c.toJson.write .compact

namespace Circuit

/-- The text of a circuit, indented. -/
def toText (c : Circuit) : String := c.toJson.write .indented

/-- What it means for the reading of a circuit that its building failed. -/
def rejected : Failure → Failure
  | .refused e => .refused (.rejected e)
  | .overflow => .overflow
  | .capacity => .capacity

/-- The circuit that a text describes, with the trail of its building, which a failure keeps.
What follows the document is only looked at once the circuit is built. -/
def ofText (s : String) : Except Failure Circuit × List Entry :=
  match Json.read? s with
  | none => (.error (.refused .unreadable), [])
  | some (j, rest) =>
    match Description.ofJson? j with
    | none => (.error (.refused .unreadable), [])
    | some d =>
      let out := d.build.apply {}
      match out.result with
      | .error e => (.error (rejected e), out.trail)
      | .ok () =>
        if rest.isEmpty then (.ok out.value, out.trail)
        else (.error (.refused .unreadable), out.trail)

end Circuit

end CallCircuit
