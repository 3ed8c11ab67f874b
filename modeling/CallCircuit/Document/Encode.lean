import CallCircuit.Circuit.Basic
import CallCircuit.Json.Basic

/-!
# Circuits as JSON values

Every structure is an object whose members stand in a fixed order. A name or group that is not
there has no member.
-/

namespace CallCircuit

/-- Widths as a JSON value. -/
def Json.widths (widths : List UInt32) : Json := .array (widths.map fun w => .nat w.toNat)

/-- A member for a text that may not be there. -/
def Json.optionalText (name : String) : Option String → List (String × Json)
  | some s => [(name, .text s)]
  | none => []

/-- A bit as a JSON value. -/
def Bit.toJson (b : Bit) : Json :=
  .ofFields [("reg_name", .text b.register), ("index", .nat b.index.toNat)]

/-- A slot as a JSON value. -/
def Slot.toJson (s : Slot) : Json := .ofFields [("index", .nat s.index.toNat)]

/-- An operand as a JSON value: an object of one member, whose key is the kind of the operand. -/
def Operand.toJson : Operand → Json
  | .bit b => .ofFields [("Bit", b.toJson)]
  | .slot s => .ofFields [("WasmState", s.toJson)]

/-- A register as a JSON value. -/
def Register.toJson (r : Register) : Json :=
  .ofFields [("name", .text r.name), ("size", .nat r.size.toNat)]

/-- An operation as a JSON value, with its kind as the first member. -/
def Operation.toJson : Operation → Json
  | .call c => .ofFields [
      ("type", .text "WASM"),
      ("func_name", .text c.function),
      ("wasm_file_uid", .text c.uid),
      ("n_inputs", .nat c.inputCount.toNat),
      ("n_outputs", .nat c.outputCount.toNat),
      ("width_i_parameter", .widths c.inputWidths),
      ("width_o_parameter", .widths c.outputWidths),
      ("num_bits", .nat c.bitCount.toNat),
      ("num_w", .nat c.slotCount.toNat)]
  | .conditional op width value => .ofFields [
      ("type", .text "Conditional"),
      ("op", op.toJson),
      ("width", .nat width.toNat),
      ("value", .nat value.toNat)]

/-- A command as a JSON value. -/
def Command.toJson (c : Command) : Json :=
  .ofFields ([("op", c.op.toJson), ("args", .array (c.args.map Operand.toJson))] ++
    Json.optionalText "opgroup" c.group)

/-- A circuit as a JSON value. -/
def Circuit.toJson (c : Circuit) : Json :=
  .ofFields (Json.optionalText "name" c.name ++ [
    ("registers", .array (c.registers.map Register.toJson)),
    ("bits", .array (c.bits.map Bit.toJson)),
    ("wasm_states", .nat c.slotCount.toNat),
    ("commands", .array (c.commands.map Command.toJson))])

end CallCircuit
