import CallCircuit.Proofs.Documents
import CallCircuit.Proofs.RegisterTable

/-!
# Registers wider than a recorded width

A width has half as many bits as the size of a register. A call on registers records the low half of
each size, and an unchecked module lets registers of any size pass, so the recorded widths can add up
to fewer bits than the call is on. Reading a circuit counts them, and then the text of the circuit is
refused for its last command.

* `totalWidth_recordedWidths_le`, `totalWidth_recordedWidths_lt_iff`: the widths add up to fewer bits
  exactly if a register is too wide to be recorded;
* `Placement.Bounded.argumentCount_fault`: then the command has more operands than its counts say;
* `Circuit.Sound.ofText_withCommand_error`: and reading the circuit finds just that;
* `Circuit.reads_back_after_registerCall`: what this means for a call on registers.
-/

namespace CallCircuit

open Edit
open Wasm (Handle)

/-! ## What recorded widths add up to -/

theorem totalWidth_recordedWidths_cons (r : Register) (registers : List Register) :
    totalWidth (recordedWidths (r :: registers)) =
      r.size.toNat % UInt32.size + totalWidth (recordedWidths registers) := by
  rw [recordedWidths, List.map_cons, totalWidth_cons, UInt64.toNat_toUInt32]
  rfl

theorem length_flatMap_bits_cons (r : Register) (registers : List Register) :
    ((r :: registers).flatMap Register.bits).length =
      r.size.toNat + (registers.flatMap Register.bits).length := by
  rw [List.flatMap_cons, List.length_append, Register.length_bits]

theorem totalWidth_recordedWidths_le (registers : List Register) :
    totalWidth (recordedWidths registers) ≤ (registers.flatMap Register.bits).length := by
  induction registers with
  | nil => exact Nat.le_refl 0
  | cons r registers ih =>
    rw [totalWidth_recordedWidths_cons, length_flatMap_bits_cons]
    exact Nat.add_le_add (Nat.mod_le _ _) ih

/-- Each size that is no width loses bits, and no other size makes up for them. -/
theorem totalWidth_recordedWidths_lt_iff {registers : List Register} :
    totalWidth (recordedWidths registers) < (registers.flatMap Register.bits).length ↔
      ¬ ∀ r ∈ registers, r.size.toNat < UInt32.size := by
  induction registers with
  | nil => simp [recordedWidths, totalWidth]
  | cons r registers ih =>
    have hle := totalWidth_recordedWidths_le registers
    have hmod := Nat.mod_le r.size.toNat UInt32.size
    rw [totalWidth_recordedWidths_cons, length_flatMap_bits_cons, List.forall_mem_cons, not_and_or,
      ← ih]
    by_cases hr : r.size.toNat < UInt32.size
    · rw [Nat.mod_eq_of_lt hr]
      omega
    · have hpos : 0 < UInt32.size := by decide
      have hlt := Nat.mod_lt r.size.toNat hpos
      omega

theorem recordedWidths_append (inputs outputs : List Register) :
    recordedWidths inputs ++ recordedWidths outputs = recordedWidths (inputs ++ outputs) :=
  List.map_append.symm

/-! ## Commands with too many operands -/

theorem countP_isBit (bits : List Bit) (slots : List Slot) :
    (bits.map Operand.bit ++ slots.map Operand.slot).countP Operand.isBit = bits.length := by
  have hb : Operand.isBit ∘ Operand.bit = fun _ => true := rfl
  have hs : Operand.isBit ∘ Operand.slot = fun _ => false := rfl
  rw [List.countP_append, List.countP_map, List.countP_map, hb, hs, List.countP_true,
    List.countP_false]
  rfl

namespace Placement

variable {p : Placement} {guard : Option Guard}

theorem Bounded.argTotal (hp : p.Bounded guard) :
    (p.operation guard).argTotal =
      (guardBits guard).length + totalWidth (p.inputs ++ p.outputs) + p.slots.length := by
  rw [Operation.argTotal, hp.bitTotal, hp.slotCount, guardBits]

theorem args_length_eq (p : Placement) (guard : Option Guard) :
    (p.command guard).args.length = (guardBits guard).length + p.bits.length + p.slots.length := by
  rw [args_length, allBits, List.length_append, guardBits]

/-- The operation of a command with more bits than its widths ask for is consistent in itself, and
counts fewer operands than there are. -/
theorem Bounded.argumentCount_fault (hp : p.Bounded guard) (hg : p.options.guard = .ok guard)
    (hw : totalWidth (p.inputs ++ p.outputs) < p.bits.length) {known : Bit → Prop}
    {slotCount : UInt64} :
    CommandFault known slotCount (p.command guard) (.refused (.inconsistent (.argumentCount
      (p.command guard).op (.ofNat (p.command guard).op.argTotal)
      (p.command guard).args.length))) := by
  have ha : (p.command guard).op.argTotal < (p.command guard).args.length := by
    rw [args_length_eq]
    show (p.operation guard).argTotal < _
    rw [hp.argTotal]
    omega
  exact .argumentCount (hp.consistent hg) (Nat.lt_trans ha hp.args) (Nat.ne_of_gt ha)

/-- The conditions of a command are as wide as the bits of its guard. -/
theorem Bounded.conditions_sum (hp : p.Bounded guard) :
    ((p.command guard).op.conditions.map (·.1.toNat)).sum = (guardBits guard).length := by
  cases guard with
  | none => rfl
  | some g => simp [command, operation, Operation.conditions, guardBits, hp.guard_toNat]

theorem Bounded.bitCount (hp : p.Bounded guard) :
    (p.command guard).op.innermost.bitCount.toNat = totalWidth (p.inputs ++ p.outputs) := by
  rw [innermost_command]
  exact hp.widths_toNat

end Placement

/-! ## Reading a circuit with such a command -/

/-- A command with a fault is the first fault of a sound circuit that it is added to. -/
theorem Circuit.Sound.firstFault_withCommand {c : Circuit} (h : c.Sound) {command : Command}
    {f : Failure} (hf : CommandFault (·.LiesIn c.registers) c.slotCount command f) :
    (c.withCommand command).description.FirstFault f := by
  obtain ⟨ht, hc⟩ := Circuit.sound_iff.1 h
  have hbits : (c.withCommand command).description.BitsAgree :=
    fun bits hb => (Option.some.inj hb).symm.trans ht.bits
  have hbad : ¬ (c.withCommand command).description.Admits command := fun ha => by
    have hv := Description.verdict_bare (d := (c.withCommand command).description) ht.names command
    exact nomatch ((hv.error_iff f).2 hf).symm.trans ((hv.ok_iff ()).2 ha)
  refine .command ⟨ht.names, ht.sizes⟩ hbits ⟨?_, hbad, [], rfl⟩ hf
  exact spotless_iff_forall.2 fun earlier hm => Classical.not_not.2 (hc earlier hm)

theorem Circuit.Sound.ofText_withCommand_error {c : Circuit} (h : c.Sound) {command : Command}
    {f : Failure} (hn : Nests (c.withCommand command).commands)
    (hf : CommandFault (·.LiesIn c.registers) c.slotCount command f) :
    (Circuit.ofText (c.withCommand command).toText).1 = .error (Circuit.rejected f) := by
  obtain ⟨_, _, hb⟩ := Description.build_yields_error (h.firstFault_withCommand hf)
  rw [Circuit.reading_of_toText hn, Description.reading, hb.apply]
  rfl

/-! ## Calls on registers -/

section Calls

variable {c : Circuit} {function : String} {h : Handle} {inputs outputs : List Register}
  {slots : Option (List Slot)} {options : CallOptions}

theorem registerPlacement_bounded {guard : Option Guard}
    (hlong : (registerPlacement function h inputs outputs slots options).Countable)
    (hg : options.guard = .ok guard) :
    (registerPlacement function h inputs outputs slots options).Bounded guard := by
  refine ⟨hlong.1, hlong.2.1, hlong.2.2 guard hg, ?_⟩
  show totalWidth (recordedWidths inputs ++ recordedWidths outputs) ≤ _
  rw [recordedWidths_append]
  exact totalWidth_recordedWidths_le _

theorem addRegisterCall_ok
    (hok : ((addRegisterCall function h inputs outputs slots options).apply c).result = .ok ()) :
    ∃ terms, checkRegisterCall c function h inputs outputs = .ok () ∧
      (registerPlacement function h inputs outputs slots options).verdict c = .ok terms ∧
      ((addRegisterCall function h inputs outputs slots options).apply c).value =
        (c.withSlots terms.2).withCommand
          ((registerPlacement function h inputs outputs slots options).command terms.1) := by
  have hy := (addRegisterCall_yields function h inputs outputs slots options c).apply
  rw [hy] at hok ⊢
  rcases Outcome.ofCheck_iff.1 ⟨hok, rfl⟩ with ⟨_, -, ⟨⟩, -⟩ | ⟨terms, hv, -, hvalue⟩
  obtain ⟨u, hcheck, hplaced⟩ := bind_eq_ok_iff.1 hv
  refine ⟨terms, ?_, hplaced, hvalue.symm⟩
  cases hc : checkRegisterCall c function h inputs outputs with
  | ok u => rfl
  | error e => simp [hc] at hcheck

/-- The widths of a call on registers add up to fewer bits than the call is on exactly if the size of
a register cannot be recorded. -/
theorem registerPlacement_widths_lt_iff :
    totalWidth ((registerPlacement function h inputs outputs slots options).inputs ++
        (registerPlacement function h inputs outputs slots options).outputs) <
      (registerPlacement function h inputs outputs slots options).bits.length ↔
        ¬ ∀ r ∈ inputs ++ outputs, r.size.toNat < 2 ^ 32 := by
  show totalWidth (recordedWidths inputs ++ recordedWidths outputs) < _ ↔ _
  rw [recordedWidths_append]
  exact totalWidth_recordedWidths_lt_iff

/-- The text of a circuit that is reached by proper changes is refused for the number of operands of
its last command, once that is a call on registers whose sizes cannot all be recorded. -/
theorem Reachable.ofText_registerCall_error {terms : Option Guard × UInt64}
    (hc : Reachable Change.Proper c)
    (hlong : (registerPlacement function h inputs outputs slots options).Countable)
    (haccepted : checkRegisterCall c function h inputs outputs = .ok ())
    (hplaced : (registerPlacement function h inputs outputs slots options).verdict c = .ok terms)
    (hwide : ¬ ∀ r ∈ inputs ++ outputs, r.size.toNat < 2 ^ 32) {command : Command}
    (hcommand : (registerPlacement function h inputs outputs slots options).command terms.1 =
      command) :
    (Circuit.ofText ((c.withSlots terms.2).withCommand command).toText).1 =
      .error (.refused (.rejected (.inconsistent
        (.argumentCount command.op (.ofNat command.op.argTotal) command.args.length)))) := by
  subst hcommand
  have hg := (((Placement.verdict_placement _ c).ok_iff terms).1 hplaced).1
  have hsound : (c.withSlots terms.2).Sound :=
    (Change.Makes.slots (c := c) terms.2).sound trivial hc.sound
  have hmakes := Change.Makes.command (.registerCall haccepted) hplaced
  exact hsound.ofText_withCommand_error (hmakes.nests hc.nests)
    ((registerPlacement_bounded hlong hg).argumentCount_fault hg
      (registerPlacement_widths_lt_iff.2 hwide))

/-- When the text of a circuit reads back as the circuit, then after a call on registers it still does
exactly if the size of every register of the call can be recorded as a width. Then the widths are the
sizes, and the operation counts all bits among its operands. Otherwise it counts fewer bits than the
call has, and the text is refused for the number of operands. Registers of a call through a checked
handle can always be recorded. -/
theorem Circuit.reads_back_after_registerCall (hc : (Circuit.ofText c.toText).1 = .ok c)
    (hlong : (registerPlacement function h inputs outputs slots options).Countable)
    (hok : ((addRegisterCall function h inputs outputs slots options).apply c).result = .ok ()) :
    let c' := ((addRegisterCall function h inputs outputs slots options).apply c).value
    let bits := (inputs ++ outputs).flatMap Register.bits
    let Recordable := ∀ r ∈ inputs ++ outputs, r.size.toNat < 2 ^ 32
    ((Circuit.ofText c'.toText).1 = .ok c' ↔ Recordable) ∧
    (h.checked = true → Recordable) ∧
    ∃ command conditionBits, c'.commands = c.commands ++ [command] ∧
      command.args = (conditionBits ++ bits).map .bit ++ (slots.getD [⟨0⟩]).map .slot ∧
      (command.op.conditions.map (·.1.toNat)).sum = conditionBits.length ∧
      (Recordable →
        command.op.innermost.inputWidths.map UInt32.toNat = inputs.map (·.size.toNat) ∧
        command.op.innermost.outputWidths.map UInt32.toNat = outputs.map (·.size.toNat) ∧
        (command.op.conditions.map (·.1.toNat)).sum + command.op.innermost.bitCount.toNat =
          command.args.countP Operand.isBit) ∧
      (¬ Recordable →
        command.op.innermost.bitCount.toNat < bits.length ∧
        (Circuit.ofText c'.toText).1 = .error (.refused (.rejected (.inconsistent
          (.argumentCount command.op (.ofNat command.op.argTotal) command.args.length))))) := by
  intro c' bits Recordable
  obtain ⟨terms, haccepted, hplaced, hvalue⟩ := addRegisterCall_ok hok
  -- a circuit that has been read is a source, so it is sound and its operations have room
  have hsource : Reachable Change.Proper c := .source (.read hc)
  let change : Change := .addRegisterCall function h inputs outputs slots options
  let p := registerPlacement function h inputs outputs slots options
  have hp : p.Bounded terms.1 :=
    registerPlacement_bounded hlong (((p.verdict_placement c).ok_iff terms).1 hplaced).1
  have hreads (hr : Recordable) : (Circuit.ofText c'.toText).1 = .ok c' := by
    have hc' : Reachable Change.Proper c' :=
      hsource.change (show change.Proper from ⟨hlong, fun _ => hr⟩)
    exact hc'.sound.reads_back hc'.nests
  have hfails (hwide : ¬ Recordable) :=
    hvalue ▸ hsource.ofText_registerCall_error hlong haccepted hplaced hwide rfl
  refine ⟨⟨fun hread => ?_, hreads⟩, fun hchecked r hm => ?_, p.command terms.1, guardBits terms.1,
    congrArg Circuit.commands hvalue, rfl, hp.conditions_sum, fun hr => ⟨?_, ?_, ?_⟩,
    fun hwide => ⟨?_, hfails hwide⟩⟩
  · exact Classical.by_contradiction fun hwide => nomatch hread.symm.trans (hfails hwide)
  · have := UInt64.le_iff_toNat_le.1 (checkRegisterCall_ok haccepted hchecked r hm)
    exact Nat.lt_of_le_of_lt this (by decide)
  · rw [p.innermost_command]
    exact widthsOf_recordedWidths fun r hm => hr r (List.mem_append_left _ hm)
  · rw [p.innermost_command]
    exact widthsOf_recordedWidths fun r hm => hr r (List.mem_append_right _ hm)
  · have hall : totalWidth (p.inputs ++ p.outputs) = bits.length :=
      Nat.le_antisymm hp.widths (Nat.not_lt.1 fun hlt => registerPlacement_widths_lt_iff.1 hlt hr)
    show _ = ((guardBits terms.1 ++ bits).map Operand.bit ++ _).countP Operand.isBit
    rw [hp.conditions_sum, hp.bitCount, countP_isBit, List.length_append, hall]
  · rw [hp.bitCount]
    exact registerPlacement_widths_lt_iff.2 hwide

end Calls

/-! ## The least size that is not recorded -/

/-- A circuit with one register of this size. -/
def wholeCircuit (size : UInt64) : Circuit := ({} : Circuit).withRegister ⟨defaultRegister, size⟩

theorem wholeCircuit_eq {size : UInt64} (h : size ≠ 0)
    (hf : Register.Fits ⟨defaultRegister, size⟩) :
    wholeCircuit size = ((pushDefaultRegister size).apply {}).value := by
  rw [(pushDefaultRegister_yields size {}).apply, if_neg h, if_pos hf]
  rfl

/-- A call on one register of a circuit through an unchecked handle succeeds. -/
theorem addRegisterCall_single_ok {c : Circuit} (hc : c.TableAgrees) {r : Register}
    (hr : r ∈ c.registers) (function : String) :
    ((addRegisterCall function uncheckedHandle [r] [] none {}).apply c).result = .ok () := by
  let p := registerPlacement function uncheckedHandle [r] [] none {}
  have hcheck : checkRegisterCall c function uncheckedHandle [r] [] = .ok () := by
    have hknown := (Circuit.register?_eq_some_iff hc.names).2 ⟨hr, rfl⟩
    exact checkKnown_ok_iff.2 fun s hs => List.mem_singleton.1 hs ▸ ⟨hknown, hc.sizes r hr⟩
  have hbits : p.allBits none = r.bits := List.append_nil _
  have hfit : UnitsFit (c.containsBit ·) (p.allBits none) p.slots := by
    rw [hbits]
    refine ⟨fun b hb => ?_, r.nodup_bits, List.nodup_singleton _⟩
    exact (Circuit.containsBit_iff hc.names).2 ⟨r, hr, Register.mem_bits_iff.1 hb⟩
  have hplaced := ((p.verdict_placement c).ok_iff (none, .ofNat (slotBound 0 p.slots))).2
    ⟨rfl, hfit, show lastSlot ∉ defaultSlots by decide, rfl⟩
  rw [(addRegisterCall_yields function uncheckedHandle [r] [] none {} c).apply, hcheck]
  show (Outcome.ofCheck c (p.verdict c) (p.change c)).result = _
  rw [hplaced]
  rfl

theorem countable_single {r : Register} (hs : r.size.toNat + 1 < UInt64.size) (function : String) :
    (registerPlacement function uncheckedHandle [r] [] none {}).Countable := by
  refine ⟨show 1 < UInt64.size by decide, show 0 < UInt64.size by decide, fun guard hg => ?_⟩
  cases hg
  rw [Placement.args_length_eq]
  show 0 + ([r].flatMap Register.bits).length + 1 < _
  rwa [length_flatMap_bits_cons, List.flatMap_nil, List.length_nil, Nat.zero_add, Nat.add_zero]

/-- A register of 2³² - 1 bits is the widest that can be recorded. -/
theorem wholeCircuit_reads_back_after_registerCall :
    let widest : UInt64 := 4294967295
    let after (size : UInt64) := ((addRegisterCall "f" uncheckedHandle [⟨defaultRegister, size⟩] []
      none {}).apply (wholeCircuit size)).value
    (∀ size ∈ [widest, widest + 1],
      (Circuit.ofText (wholeCircuit size).toText).1 = .ok (wholeCircuit size) ∧
      (registerPlacement "f" uncheckedHandle [⟨defaultRegister, size⟩] [] none {}).Countable ∧
      ((addRegisterCall "f" uncheckedHandle [⟨defaultRegister, size⟩] [] none {}).apply
        (wholeCircuit size)).result = .ok ()) ∧
    (Circuit.ofText (after widest).toText).1 = .ok (after widest) ∧
      (Circuit.ofText (after (widest + 1)).toText).1 ≠ .ok (after (widest + 1)) := by
  intro widest after
  have hgiven (size : UInt64) (h0 : size ≠ 0) (hf : Register.Fits ⟨defaultRegister, size⟩) :=
    have hsource : Reachable Change.Proper (wholeCircuit size) :=
      wholeCircuit_eq h0 hf ▸ .source (.withBits size)
    have hs : size.toNat + 1 < UInt64.size :=
      Nat.lt_of_le_of_lt (Nat.succ_le_of_lt (Register.fits_iff.1 hf)) (by decide)
    And.intro (hsource.sound.reads_back hsource.nests) (And.intro
      (countable_single (r := ⟨defaultRegister, size⟩) hs "f")
      (addRegisterCall_single_ok hsource.tableAgrees (List.mem_singleton_self _) "f"))
  have hw := hgiven widest (by decide) (by decide)
  have hw' := hgiven (widest + 1) (by decide) (by decide)
  refine ⟨by simpa using ⟨hw, hw'⟩, ?_, ?_⟩
  · exact (Circuit.reads_back_after_registerCall hw.1 hw.2.1 hw.2.2).1.2
      (List.forall_mem_singleton.2 (by decide))
  · intro h
    have := (Circuit.reads_back_after_registerCall hw'.1 hw'.2.1 hw'.2.2).1.1 h
    exact absurd (this _ (List.mem_singleton_self _)) (by decide)

end CallCircuit
