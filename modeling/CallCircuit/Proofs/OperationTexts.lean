import CallCircuit.Proofs.Codec

/-!
# The texts of operations and commands

Writing an operation has no limit, but reading nests at most `maxDepth` deep. An operation needs room
for an object at each layer and for the lists of widths in the call, a command for one object more. So
a text reads back exactly if there are not too many layers. Nothing is checked on the way, whatever the
counts, widths and operands are.

* `Operation.ofText?_toText`, `Command.ofText?_toText`: what the texts read back as;
* `texts_read_back_exactly`: both, and what is known of anything that has been read back.
-/

namespace CallCircuit

theorem Json.readAll?_write {α : Type} (value? : Json → Option α) (layout : Layout) {j : Json}
    (h : j.isPlain = true) : Json.readAll? value? (j.write layout) = value? j := by
  rw [readAll?, read?_write layout h]

theorem Operation.ofText?_toText (op : Operation) :
    Operation.ofText? op.toText = if op.layers ≤ 125 then some op else none := by
  rw [ofText?, toText, Json.readAll?_write _ _ op.isPlain_toJson, ofJson?_toJson]
  simp only [maxDepth, Nat.reduceLeDiff]

theorem Command.ofText?_toText (command : Command) :
    Command.ofText? command.toText = if command.op.layers ≤ 124 then some command else none := by
  rw [ofText?, toText, Json.readAll?_write _ _ command.isPlain_toJson, ofJson?_toJson]
  simp only [maxDepth, Nat.reduceSub, Nat.reduceLeDiff]

/-- The text of an operation reads back as the operation exactly if it has at most 125 layers, and that
of a command as the command exactly if its operation has at most 124. There is no other outcome than
this and a failure, so whatever has been read back has the counts, the check and the wording of what
was written. -/
theorem texts_read_back_exactly :
    (∀ op : Operation, Operation.ofText? op.toText = if op.layers ≤ 125 then some op else none) ∧
    (∀ command : Command, Command.ofText? command.toText =
      if command.op.layers ≤ 124 then some command else none) ∧
    (∀ op read : Operation, Operation.ofText? op.toText = some read →
      read.bitCount? = op.bitCount? ∧ read.slotCount = op.slotCount ∧ read.check = op.check ∧
        read.text = op.text) ∧
    ∀ command read : Command, Command.ofText? command.toText = some read →
      read.op.bitCount? = command.op.bitCount? ∧ read.op.slotCount = command.op.slotCount ∧
        read.op.check = command.op.check ∧ read.text = command.text := by
  refine ⟨Operation.ofText?_toText, Command.ofText?_toText, fun op read h => ?_,
    fun command read h => ?_⟩
  · rw [op.ofText?_toText, Option.ite_none_right_eq_some] at h
    obtain ⟨-, ⟨⟩⟩ := h
    exact ⟨rfl, rfl, rfl, rfl⟩
  · rw [command.ofText?_toText, Option.ite_none_right_eq_some] at h
    obtain ⟨-, ⟨⟩⟩ := h
    exact ⟨rfl, rfl, rfl, rfl⟩

/-- A call under this many conditions, none of which can hold, with counts that disagree. -/
def absurdOperation : Nat → Operation
  | 0 => .call ⟨"f\n", "uid", 7, 0, [], [4294967295], 0, 18446744073709551615⟩
  | layers + 1 => .conditional (absurdOperation layers) 0 1

theorem layers_absurdOperation (layers : Nat) : (absurdOperation layers).layers = layers := by
  induction layers with
  | zero => rfl
  | succ layers ih => rw [absurdOperation, Operation.layers, ih]

/-- One layer more and the text cannot be read, although the operation is never consistent. -/
theorem absurdOperation_read_back :
    Operation.ofText? (absurdOperation 125).toText = some (absurdOperation 125) ∧
      Operation.ofText? (absurdOperation 126).toText = none ∧
      Command.ofText? (Command.mk (absurdOperation 124) [.slot ⟨0⟩, .slot ⟨0⟩] none).toText =
        some ⟨absurdOperation 124, [.slot ⟨0⟩, .slot ⟨0⟩], none⟩ ∧
      Command.ofText? (Command.mk (absurdOperation 125) [] none).toText = none := by
  obtain ⟨hop, hcommand, -, -⟩ := texts_read_back_exactly
  refine ⟨?_, ?_, ?_, ?_⟩
  · rw [hop, layers_absurdOperation]
    rfl
  · rw [hop, layers_absurdOperation]
    rfl
  · rw [hcommand, layers_absurdOperation]
    rfl
  · rw [hcommand, layers_absurdOperation]
    rfl

end CallCircuit
