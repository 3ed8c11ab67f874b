import CallCircuit.Proofs.CheckedCalls
import CallCircuit.Proofs.Documents

/-!
# Trails and changes

The trail of a change says how the circuit after it differs from the circuit before it, and nothing
else but a warning. `additionEntries` is the trail of an addition: of registers, then of slots, then
of commands. A change leaves that of what it has added to the circuit, and a circuit that is read
leaves that of all it has, as an addition to nothing. A change that fails has added nothing, and
leaves its warning at most, save for one case: the entry of a register is written before there are any
bits, and stays when there is no room for them.

* `Change.leaves`: what a change leaves;
* `Circuit.trail_of_ofText`: a text leaves the trail of the circuit that is read from it;
* `trail_records_additions`: both of these, in the wording of the lines;
* `vastRegister_leaves_line`: a register that is not added, and has its line.
-/

namespace CallCircuit

open Edit

/-! ## Entries -/

/-- What the trail has of these registers, of the growth of the state register from one size to
another, and of these commands. -/
def additionEntries (registers : List Register) (before after : UInt64) (commands : List Command) :
    List Entry :=
  registers.map .addingRegister ++
    (if before < after then [.growingStates before after] else []) ++ commands.map .addingCommand

theorem Circuit.growth_eq (c : Circuit) (least : UInt64) (commands : List Command) :
    c.growth least ++ commands.map .addingCommand =
      additionEntries [] c.slotCount (c.withSlots least).slotCount commands := by
  unfold growth withSlots additionEntries
  by_cases h : c.slotCount < least <;> simp [h]

/-- The warning that a change leaves ahead of all else. -/
def Change.warning : Change → List Entry
  | .addRegister .. | .growSlots _ | .addCall .. => []
  | .addRegisterCall function h .. => Edit.warning function h

/-- The registers that a change adds when it succeeds. -/
def Change.newRegisters : Change → List Register
  | .addRegister name size => [⟨name, size⟩]
  | .growSlots _ | .addCall .. | .addRegisterCall .. => []

/-- How many commands a change adds when it succeeds. -/
def Change.newCommandCount : Change → Nat
  | .addRegister .. | .growSlots _ => 0
  | .addCall .. | .addRegisterCall .. => 1

/-- The change is to add a register of a new name, and there is no room for its bits. -/
def Change.Overfills (change : Change) (c : Circuit) (r : Register) : Prop :=
  change = .addRegister r.name r.size ∧ c.register? r.name = none ∧ 2 ^ 58 ≤ r.size.toNat

theorem Change.Overfills.unique {change : Change} {c : Circuit} {r s : Register}
    (hr : change.Overfills c r) (hs : change.Overfills c s) : r = s := by
  obtain ⟨name, size⟩ := r
  cases hr.1.symm.trans hs.1
  rfl

theorem Change.not_overfills {change : Change} (h : change.newRegisters = []) {c : Circuit}
    (r : Register) : ¬ change.Overfills c r := by
  rintro ⟨rfl, -⟩
  cases h

/-! ## What a change leaves -/

/-- What a change leaves: the circuit with what has been added, and the trail of this addition behind
the warning, or else the circuit as it was, with the warning alone or with the entry of the register
that there is no room for. -/
inductive Change.Leaves (change : Change) (c : Circuit) : Outcome Circuit Failure Unit → Prop where
  | addition {c' : Circuit} {trail : List Entry} (commands : List Command)
      (roomy : ∀ r, ¬ change.Overfills c r)
      (value : c' = { (c.withRegisters change.newRegisters).withCommands commands with
        slotCount := c'.slotCount })
      (slots_mono : c.slotCount ≤ c'.slotCount)
      (count : commands.length = change.newCommandCount)
      (trail_eq : trail = change.warning ++
        additionEntries change.newRegisters c.slotCount c'.slotCount commands) :
      Leaves change c ⟨.ok (), c', trail⟩
  | failure {f : Failure} (roomy : ∀ r, ¬ change.Overfills c r) :
      Leaves change c ⟨.error f, c, change.warning⟩
  | room {r : Register} (overfills : change.Overfills c r) :
      Leaves change c ⟨.error .capacity, c, [.addingRegister r]⟩

section Leaves

variable {c : Circuit} {change : Change}

/-- A call leaves what its placement adds, behind the warning. -/
theorem Placement.leaves (p : Placement) (check : Except Failure (Option Guard × UInt64))
    (hregisters : change.newRegisters = []) (hcount : change.newCommandCount = 1) :
    change.Leaves c (.noted change.warning (.ofCheck c check (p.change c))) := by
  cases check with
  | error f =>
    have ht : (Outcome.noted change.warning ⟨.error f, c, []⟩ : Outcome Circuit Failure Unit) =
        ⟨.error f, c, change.warning⟩ := by
      rw [Outcome.noted, List.append_nil]
    exact ht ▸ .failure (Change.not_overfills hregisters)
  | ok terms =>
    refine .addition [p.command terms.1] (Change.not_overfills hregisters) ?_
      (slotCount_le_withSlots c terms.2) hcount.symm ?_
    · rw [hregisters]
      simp [Placement.change, Circuit.withRegisters, Circuit.withCommands, Circuit.withCommand,
        Circuit.withSlots]
    · rw [hregisters]
      exact congrArg (change.warning ++ ·) (c.growth_eq terms.2 [p.command terms.1])

theorem Change.leaves (change : Change) (c : Circuit) : change.Leaves c (change.edit.apply c) := by
  cases change with
  | addRegister name size =>
    rw [edit, (addRegister_yields name size c).discard.apply]
    by_cases hn : (c.register? name).isSome
    · rw [if_pos hn]
      refine .failure fun r hr => ?_
      cases hr.1
      rw [hr.2.1] at hn
      cases hn
    · rw [if_neg hn]
      by_cases hf : Register.Fits ⟨name, size⟩
      · rw [if_pos hf]
        have hroomy (r : Register) : ¬ (Change.addRegister name size).Overfills c r := by
          rintro ⟨⟨⟩, -, large⟩
          exact Nat.not_lt.2 large (Register.fits_iff.1 hf)
        refine .addition [] hroomy ?_ (UInt64.le_refl _) rfl ?_
        · simp [newRegisters, Circuit.withRegister, Circuit.withRegisters, Circuit.withCommands]
        · simp [newRegisters, warning, additionEntries, Circuit.withRegister]
      · rw [if_neg hf]
        have hnew : c.register? name = none := Option.not_isSome_iff_eq_none.1 hn
        exact .room (r := ⟨name, size⟩)
          ⟨rfl, hnew, Nat.not_lt.1 fun hs => hf (Register.fits_iff.2 hs)⟩
  | growSlots least =>
    rw [edit, (growSlots_yields least c).discard.apply]
    refine .addition [] (not_overfills rfl) ?_ (slotCount_le_withSlots c least) rfl ?_
    · simp [newRegisters, Circuit.withRegisters, Circuit.withCommands, Circuit.withSlots]
    · rw [newRegisters, ← c.growth_eq least []]
      exact (List.append_nil _).symm
  | addCall function h inputs outputs bits slots options =>
    rw [edit, (addCall_yields function h inputs outputs bits slots options c).apply]
    exact Placement.leaves _ _ rfl rfl
  | addRegisterCall function h inputs outputs slots options =>
    rw [edit, (addRegisterCall_yields function h inputs outputs slots options c).apply]
    exact Placement.leaves _ _ rfl rfl

end Leaves

/-- A text leaves the trail of the circuit that is read from it. -/
theorem Circuit.trail_of_ofText {text : String} {c : Circuit} (h : (ofText text).1 = .ok c) :
    (ofText text).2 = additionEntries c.registers 0 c.slotCount c.commands := by
  obtain ⟨j, d, hj, hd, hc, rfl⟩ := ofText_ok h
  rw [ofText_eq_reading hj hd, Description.reading, (Description.build_yields hc).apply]
  rfl

/-! ## The wording -/

/-- The lines of an addition. -/
def additionLines (registers : List Register) (before after : UInt64) (commands : List Command) :
    List String :=
  registers.map (fun r => s!"DEBUG adding register {r.text}") ++
    (if before < after then
      [s!"DEBUG growing wasm state register from {before} to {after}"] else []) ++
    commands.map fun command => s!"DEBUG adding command {command.text}"

/-- The line of the warning that a call on registers leaves through an unchecked handle. -/
def Change.warningLines : Change → List String
  | .addRegister .. | .growSlots _ | .addCall .. => []
  | .addRegisterCall function h .. =>
    if h.checked then []
    else [s!"WARN adding call to '{function}' of unchecked wasm module {h.uid} without validation"]

theorem line_addingRegister (r : Register) :
    (Entry.addingRegister r).line = s!"DEBUG adding register {r.text}" := by
  show "DEBUG" ++ " " ++ ("adding register " ++ r.text) = _
  rw [← String.append_assoc]
  rfl

theorem line_growingStates (before after : UInt64) :
    (Entry.growingStates before after).line =
      s!"DEBUG growing wasm state register from {before} to {after}" := by
  show "DEBUG" ++ " " ++
    ("growing wasm state register from " ++ toString before ++ " to " ++ toString after) = _
  simp only [← String.append_assoc]
  rfl

theorem line_addingCommand (command : Command) :
    (Entry.addingCommand command).line = s!"DEBUG adding command {command.text}" := by
  show "DEBUG" ++ " " ++ ("adding command " ++ command.text) = _
  rw [← String.append_assoc]
  rfl

theorem line_uncheckedCall (function uid : String) :
    (Entry.uncheckedCall function uid).line =
      s!"WARN adding call to '{function}' of unchecked wasm module {uid} without validation" := by
  show "WARN" ++ " " ++ ("adding call to '" ++ function ++ "' of unchecked wasm module " ++ uid ++
    " without validation") = _
  simp only [← String.append_assoc]
  rfl

theorem map_line_additionEntries (registers : List Register) (before after : UInt64)
    (commands : List Command) :
    (additionEntries registers before after commands).map Entry.line =
      additionLines registers before after commands := by
  unfold additionEntries additionLines
  simp only [List.map_append, List.map_map, apply_ite (List.map Entry.line), List.map_cons,
    List.map_nil, Function.comp_def, line_addingRegister, line_growingStates, line_addingCommand]

theorem map_line_warning (change : Change) :
    change.warning.map Entry.line = change.warningLines := by
  cases change with
  | addRegister | growSlots | addCall => rfl
  | addRegisterCall function h inputs outputs slots options =>
    unfold Change.warning Change.warningLines Edit.warning
    rw [apply_ite (List.map Entry.line), List.map_cons, List.map_nil, line_uncheckedCall]

/-- The trail of a change has a line for each register that has been appended, one with both sizes
if the state register has grown, and one for each command that has been appended, in this order, and
ahead of them the warning of a call on registers through an unchecked handle, and no other line. A
change that fails leaves the circuit and at most this warning, unless it is to add a register of a new
name and of 2⁵⁸ or more bits. This always fails, and has its line. Reading a circuit leaves the lines
of all its registers, of its slots, and of all its commands. -/
theorem trail_records_additions :
    (∀ (c : Circuit) (change : Change),
      let out := change.edit.apply c
      let lines := out.trail.map Entry.line
      (out.result = .ok () → ∃ commands,
        out.value = { c with
          registers := c.registers ++ change.newRegisters
          bits := c.bits ++ change.newRegisters.flatMap Register.bits
          slotCount := out.value.slotCount
          commands := c.commands ++ commands } ∧
        c.slotCount ≤ out.value.slotCount ∧ commands.length = change.newCommandCount ∧
        lines = change.warningLines ++
          additionLines change.newRegisters c.slotCount out.value.slotCount commands) ∧
      (∀ f, out.result = .error f → out.value = c ∧
        ((∀ r, ¬ change.Overfills c r) → lines = change.warningLines)) ∧
      ∀ r, change.Overfills c r →
        out.result = .error .capacity ∧ lines = [s!"DEBUG adding register {r.text}"]) ∧
    ∀ text c, (Circuit.ofText text).1 = .ok c →
      (Circuit.ofText text).2.map Entry.line =
        additionLines c.registers 0 c.slotCount c.commands := by
  refine ⟨fun c change => ?_, fun text c h => ?_⟩
  · have hl := change.leaves c
    generalize change.edit.apply c = out at hl ⊢
    dsimp only
    cases hl with
    | addition commands roomy value slots_mono count trail_eq =>
      refine ⟨fun _ => ⟨commands, value, slots_mono, count, ?_⟩, fun f hf => (nomatch hf),
        fun r hr => absurd hr (roomy r)⟩
      rw [trail_eq, List.map_append, map_line_warning, map_line_additionEntries]
    | failure roomy =>
      exact ⟨fun h => (nomatch h), fun f _ => ⟨rfl, fun _ => map_line_warning change⟩,
        fun r hr => absurd hr (roomy r)⟩
    | @room s overfills =>
      refine ⟨fun h => (nomatch h), fun f _ => ⟨rfl, fun roomy => absurd overfills (roomy s)⟩,
        fun r hr => ⟨rfl, ?_⟩⟩
      rw [hr.unique overfills, List.map_singleton, line_addingRegister]
  · rw [Circuit.trail_of_ofText h, map_line_additionEntries]

/-- A call on registers through an unchecked handle, one of which `threeBits` does not have. -/
def strayCall : Change :=
  .addRegisterCall "f" uncheckedHandle [⟨defaultRegister, 3⟩] [⟨"d", 1⟩] (some [⟨9⟩]) {}

theorem guardedCircuit_trails :
    (guardedCall.edit.apply threeBits).result = .ok () ∧
      (guardedCall.edit.apply threeBits).trail.map Entry.line =
        ["DEBUG growing wasm state register from 0 to 1",
          "DEBUG adding command IF (1 bits == 1) THEN WASM add_one@93a44bbb c[0], c[1], c[2], " ++
            "_w[0];"] ∧
      (strayCall.edit.apply threeBits).result =
        .error (.refused (.unknownRegister ⟨"d", 1⟩)) ∧
      (strayCall.edit.apply threeBits).trail.map Entry.line =
        ["WARN adding call to 'f' of unchecked wasm module " ++
          "93a44bbb96c751218e4c00d479e4c14358122a389acca16205b1e4d0dc5f9476 without validation"] ∧
      (Circuit.ofText guardedCircuit.toText).2.map Entry.line =
        ["DEBUG adding register c[3]", "DEBUG growing wasm state register from 0 to 1",
          "DEBUG adding command IF (1 bits == 1) THEN WASM add_one@93a44bbb c[0], c[1], c[2], " ++
            "_w[0];"] := by
  have hok : (guardedCall.edit.apply threeBits).result = .ok () := rfl
  have hf : (strayCall.edit.apply threeBits).result =
      .error (.refused (.unknownRegister ⟨"d", 1⟩)) := rfl
  obtain ⟨commands, hvalue, -, -, hlines⟩ := (trail_records_additions.1 threeBits guardedCall).1 hok
  have hcommands : commands = [guardedCommand] :=
    (congrArg Circuit.commands hvalue).symm.trans guardedCircuit_commands
  rw [hcommands] at hlines
  have hfailed := ((trail_records_additions.1 threeBits strayCall).2.1 _ hf).2
    (Change.not_overfills rfl)
  have hread := trail_records_additions.2 _ _ reachable_guardedCircuit.ofText_toText
  rw [guardedCircuit_commands] at hread
  refine ⟨hok, hlines.trans ?_, hf, hfailed, hread.trans ?_⟩
  · decide +kernel
  · decide +kernel

/-- A register that there is no room for is not added, and has its line. -/
theorem vastRegister_leaves_line :
    let out := (Change.addRegister "a" vastSize).edit.apply {}
    Reachable Change.Proper {} ∧ out.result = .error .capacity ∧ out.value = {} ∧
      out.trail.map Entry.line = ["DEBUG adding register a[1152921504606846976]"] :=
  ⟨.source .empty, rfl, rfl, by decide +kernel⟩

end CallCircuit
