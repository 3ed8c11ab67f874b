import CallCircuit.Proofs.Reachable

/-!
# What comes of a call

`CallOutcome` lists everything that can come of adding a call on single bits to a circuit, in terms
of the request and the circuit alone. Each constructor but the last is a refusal and asks that the
refusals before it do not apply; the last one says what the circuit is afterwards.

* `verdict_checkCall`: the stages ahead of placing a call;
* `addCall_iff`: what comes of adding a call to a circuit whose registers have names of their own;
* `Reachable.addCall_exactly`: adding a call to a reachable circuit comes to the outcome that applies
  and to no other;
* `vastCall_unanswered`: a call with too wide a condition, which is not refused for it.
-/

namespace CallCircuit

open Edit
open Wasm (Handle)

/-! ## The stages ahead of placing a call -/

/-- The module of the handle has the function with this many inputs and outputs, if it has been
checked. -/
def Finds (h : Handle) (function : String) (inputs outputs : List UInt32) : Prop :=
  ∀ table, h.exports = some table →
    table.supported.find? function = some ⟨inputs.length, outputs.length⟩

/-- The call agrees with the module and with its widths. -/
structure CallAgrees (function : String) (h : Handle) (inputs outputs : List UInt32)
    (bits : List Bit) : Prop where
  narrow : ∀ width ∈ inputs ++ outputs, width ≤ h.intSize.bits
  found : Finds h function inputs outputs
  count : bits.length = totalWidth (inputs ++ outputs)

section Stages

variable {function : String} {h : Handle} {inputs outputs : List UInt32} {bits : List Bit}

theorem accepts_iff :
    h.accepts function ⟨inputs.length, outputs.length⟩ = true ↔
      Finds h function inputs outputs := by
  unfold Handle.accepts Finds
  cases h.exports <;> simp

/-- The width is one that a module with integers of this size has no room for. -/
def TooWide (intSize : UInt32) (_ : List UInt32) (width : UInt32) : Prop := intSize < width

theorem verdict_checkWidths (inputs outputs : List UInt32) (intSize : UInt32) :
    Verdict (checkWidths inputs outputs intSize)
      (fun _ => ∀ width ∈ inputs ++ outputs, width ≤ intSize)
      (Stops (TooWide intSize) (fun width e => .invalidArgument width intSize = e)
        (inputs ++ outputs)) := by
  have hv := Verdict.find (x := checkWidths inputs outputs intSize) (l := inputs ++ outputs)
    (intSize < ·) (CircuitError.invalidArgument · intSize) (fun _ => decide_eq_true_iff)
    (fun width h => by rw [checkWidths, h]) fun h => by
      rw [checkWidths, h]
      exact .ok ()
  exact hv.congr (fun _ => by simp only [UInt32.not_lt, and_true]) fun e => by
    simp only [and_false, or_false]
    rfl

theorem verdict_checkCall (function : String) (h : Handle) (inputs outputs : List UInt32)
    (bits : List Bit) :
    Verdict (checkCall function h inputs outputs bits)
      (fun _ => CallAgrees function h inputs outputs bits)
      fun e =>
        Stops (TooWide h.intSize.bits) (fun width e => .invalidArgument width h.intSize.bits = e)
            (inputs ++ outputs) e ∨
          (∀ width ∈ inputs ++ outputs, width ≤ h.intSize.bits) ∧
            (¬ Finds h function inputs outputs ∧ .functionNotFound function h.uid = e ∨
              Finds h function inputs outputs ∧ bits.length ≠ totalWidth (inputs ++ outputs) ∧
                .argumentCountMismatch (totalWidth (inputs ++ outputs)) bits.length = e) := by
  unfold checkCall
  refine ((verdict_checkWidths inputs outputs h.intSize.bits).bind fun _ _ => .ite fun _ =>
    .ite fun _ => .ok ()).congr (fun _ => ?_) fun e => ?_
  · simp only [Bool.not_eq_true', ← Bool.not_eq_true, ne_eq, Classical.not_not, accepts_iff,
      exists_const]
    exact ⟨fun ⟨hn, hf, hc, _⟩ => ⟨hn, hf, hc⟩, fun h => ⟨h.narrow, h.found, h.count, trivial⟩⟩
  · simp only [Bool.not_eq_true', ← Bool.not_eq_true, Classical.not_not, accepts_iff, exists_const,
      and_false, or_false]

end Stages

/-! ## Everything that can come of a call -/

/-- The bits of a guard, and none without a guard. -/
def guardBits (guard : Option Guard) : List Bit := (guard.map Guard.bits).getD []

/-- The call under a guard, if there is one. -/
def guarded (call : ModuleCall) : Option Guard → Operation
  | some g => .conditional (.call call) (.ofNat g.bits.length) g.value
  | none => .call call

section Outcome

variable (c : Circuit) (function : String) (h : Handle) (inputs outputs : List UInt32)
  (bits : List Bit) (slots : List Slot) (options : CallOptions)

/-- What comes of asking a circuit for a call on these bits and slots, and the circuit afterwards.
The constructors exclude each other, and each refusal asks that none ahead of it applies. -/
inductive CallOutcome : Except Failure Unit → Circuit → Prop where
  | tooWide {before : List UInt32} {width : UInt32}
      (first : FirstOffender (TooWide h.intSize.bits) (inputs ++ outputs) before width) :
      CallOutcome (.error (.refused (.invalidArgument width h.intSize.bits))) c
  | notFound (narrow : ∀ width ∈ inputs ++ outputs, width ≤ h.intSize.bits)
      (missing : ¬ Finds h function inputs outputs) :
      CallOutcome (.error (.refused (.functionNotFound function h.uid))) c
  | miscounted (narrow : ∀ width ∈ inputs ++ outputs, width ≤ h.intSize.bits)
      (found : Finds h function inputs outputs)
      (count : bits.length ≠ totalWidth (inputs ++ outputs)) :
      CallOutcome
        (.error (.refused (.argumentCountMismatch (totalWidth (inputs ++ outputs)) bits.length))) c
  | options {e : CircuitError} (agrees : CallAgrees function h inputs outputs bits)
      (guard_eq : options.guard = .error (.refused e)) : CallOutcome (.error (.refused e)) c
  | room (agrees : CallAgrees function h inputs outputs bits) (overfills : options.Overfills) :
      CallOutcome (.error .capacity) c
  | units {guard : Option Guard} {e : CircuitError}
      (agrees : CallAgrees function h inputs outputs bits) (guard_eq : options.guard = .ok guard)
      (fault : UnitFault (·.LiesIn c.registers) (guardBits guard ++ bits) slots e) :
      CallOutcome (.error (.refused e)) c
  | overflow {guard : Option Guard} (agrees : CallAgrees function h inputs outputs bits)
      (guard_eq : options.guard = .ok guard)
      (fit : UnitsFit (·.LiesIn c.registers) (guardBits guard ++ bits) slots)
      (last : lastSlot ∈ slots) : CallOutcome (.error .overflow) c
  | added {guard : Option Guard} (agrees : CallAgrees function h inputs outputs bits)
      (guard_eq : options.guard = .ok guard)
      (fit : UnitsFit (·.LiesIn c.registers) (guardBits guard ++ bits) slots)
      (last : lastSlot ∉ slots) :
      CallOutcome (.ok ()) { c with
        slotCount := .ofNat (slotBound c.slotCount.toNat slots)
        commands := c.commands ++ [{
          op := guarded {
            function := function
            uid := h.uid
            inputCount := .ofNat inputs.length
            outputCount := .ofNat outputs.length
            inputWidths := inputs
            outputWidths := outputs
            bitCount := .ofNat (totalWidth (inputs ++ outputs))
            slotCount := .ofNat slots.length } guard
          args := (guardBits guard ++ bits).map .bit ++ slots.map .slot
          group := options.group }] }

end Outcome

section Exactly

variable {c c' : Circuit} {function : String} {h : Handle} {inputs outputs : List UInt32}
  {bits : List Bit} {slots : Option (List Slot)} {options : CallOptions}
  {result : Except Failure Unit}

/-- What a placed call makes of a circuit, written out. -/
theorem change_callPlacement {terms : Option Guard × UInt64}
    (hl : lastSlot ∉ slots.getD defaultSlots)
    (ht : terms.2 = .ofNat (slotBound 0 (slots.getD defaultSlots))) :
    ((callPlacement function h inputs outputs bits slots options).change c terms).value = { c with
      slotCount := .ofNat (slotBound c.slotCount.toNat (slots.getD defaultSlots))
      commands := c.commands ++ [{
        op := guarded (.ofWidths function h.uid inputs outputs
          (.ofNat (slots.getD defaultSlots).length)) terms.1
        args := (guardBits terms.1 ++ bits).map .bit ++ (slots.getD defaultSlots).map .slot
        group := options.group }] } := by
  rw [Placement.change, ht, withSlots_slotBound hl]
  cases terms.1 <;> rfl

theorem addCall_iff (hc : c.HasDistinctNames) :
    ((addCall function h inputs outputs bits slots options).apply c).result = result ∧
        ((addCall function h inputs outputs bits slots options).apply c).value = c' ↔
      CallOutcome c function h inputs outputs bits (slots.getD defaultSlots) options result c' := by
  have hv := (verdict_checkCall function h inputs outputs bits).lift.bind fun _ _ =>
    Placement.verdict_placement (callPlacement function h inputs outputs bits slots options) c
  rw [Circuit.containsBit_eq hc] at hv
  rw [(addCall_yields function h inputs outputs bits slots options c).apply, Outcome.ofCheck_iff]
  simp only [hv.ok_iff, hv.error_iff]
  constructor
  · intro hx
    rcases hx with ⟨f, hf, rfl, rfl⟩ | ⟨terms, ⟨-, ha, hg, hu, hl, ht⟩, rfl, rfl⟩
    · rcases hf with ⟨_, ⟨before, width, hw, rfl⟩ | ⟨hn, ⟨hm, rfl⟩ | ⟨hf, hcount, rfl⟩⟩, rfl⟩ |
        ⟨-, ha, hg | ⟨guard, hg, ⟨e, he, rfl⟩ | ⟨hu, hl, rfl⟩⟩⟩
      · exact .tooWide hw
      · exact .notFound hn hm
      · exact .miscounted hn hf hcount
      · rcases CallOptions.guard_failure hg with ⟨e, rfl⟩ | ⟨rfl, ho⟩
        · exact .options ha hg
        · exact .room ha ho
      · exact .units ha hg he
      · exact .overflow ha hg hu hl
    · rw [change_callPlacement hl ht]
      exact .added ha hg hu hl
  · intro ho
    cases ho with
    | tooWide first => exact .inl ⟨_, .inl ⟨_, .inl ⟨_, _, first, rfl⟩, rfl⟩, rfl, rfl⟩
    | notFound narrow missing =>
      exact .inl ⟨_, .inl ⟨_, .inr ⟨narrow, .inl ⟨missing, rfl⟩⟩, rfl⟩, rfl, rfl⟩
    | miscounted narrow found count =>
      exact .inl ⟨_, .inl ⟨_, .inr ⟨narrow, .inr ⟨found, count, rfl⟩⟩, rfl⟩, rfl, rfl⟩
    | options agrees guard_eq =>
      exact .inl ⟨_, .inr ⟨(), agrees, .inl guard_eq⟩, rfl, rfl⟩
    | room agrees overfills =>
      exact .inl ⟨_, .inr ⟨(), agrees, .inl overfills.guard_eq⟩, rfl, rfl⟩
    | units agrees guard_eq fault =>
      exact .inl ⟨_, .inr ⟨(), agrees, .inr ⟨_, guard_eq, .inl ⟨_, fault, rfl⟩⟩⟩, rfl, rfl⟩
    | overflow agrees guard_eq fit last =>
      exact .inl ⟨_, .inr ⟨(), agrees, .inr ⟨_, guard_eq, .inr ⟨fit, last, rfl⟩⟩⟩, rfl, rfl⟩
    | @added guard agrees guard_eq fit last =>
      exact .inr ⟨(guard, .ofNat (slotBound 0 (slots.getD defaultSlots))),
        ⟨(), agrees, guard_eq, fit, last, rfl⟩, rfl, change_callPlacement last rfl⟩

/-- Asking a reachable circuit for a call on single bits comes to the outcome that applies, and to
no other. -/
theorem Reachable.addCall_exactly {allowed : Change → Prop} (hc : Reachable allowed c)
    (function : String) (h : Handle) (inputs outputs : List UInt32) (bits : List Bit)
    (slots : Option (List Slot)) (options : CallOptions) (result : Except Failure Unit)
    (c' : Circuit) :
    ((addCall function h inputs outputs bits slots options).apply c).result = result ∧
        ((addCall function h inputs outputs bits slots options).apply c).value = c' ↔
      CallOutcome c function h inputs outputs bits (slots.getD [⟨0⟩]) options result c' :=
  addCall_iff hc.tableAgrees.names

theorem guardedCall_outcome :
    Reachable Change.Proper threeBits ∧
      CallOutcome threeBits "add_one" uncheckedHandle [1] [1]
        [⟨defaultRegister, 1⟩, ⟨defaultRegister, 2⟩] [⟨0⟩] guardedOptions (.ok ()) guardedCircuit :=
  have hr : Reachable Change.Proper threeBits := .source (.withBits 3)
  ⟨hr, (hr.addCall_exactly "add_one" uncheckedHandle [1] [1]
    [⟨defaultRegister, 1⟩, ⟨defaultRegister, 2⟩] none guardedOptions (.ok ()) guardedCircuit).1
    ⟨rfl, rfl⟩⟩

end Exactly

/-- A condition on a register of far more than 64 bits. -/
def vastCondition : CallOptions := { condition := some (.registerEquals ⟨"w", vastSize⟩ 0) }

/-- A call that the module takes, under settings that do not conflict, comes to none of the errors
that there are for it. -/
theorem vastCall_unanswered :
    let call := addCall "f" uncheckedHandle [] [] [] none vastCondition
    Reachable Change.Proper {} ∧ CallAgrees "f" uncheckedHandle [] [] [] ∧
      ¬ vastCondition.Conflicts ∧ (call.apply {}).result = .error .capacity ∧
      (call.apply {}).value = {} := by
  have agrees : CallAgrees "f" uncheckedHandle [] [] [] :=
    ⟨fun _ hm => (List.not_mem_nil hm).elim, fun _ ht => (Option.some_ne_none _ ht.symm).elim, rfl⟩
  refine ⟨.source .empty, agrees, ?_, rfl, rfl⟩
  simp [CallOptions.Conflicts, vastCondition]

end CallCircuit
