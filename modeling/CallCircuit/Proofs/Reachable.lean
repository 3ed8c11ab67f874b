import CallCircuit.Document.Text
import CallCircuit.Proofs.Building
import CallCircuit.Proofs.Placements

/-!
# Circuits that can be reached

A circuit is new or read from a text, and then changed by edits that may fail. `Change` lists these
edits, and `Change.Makes` says what a change can make of a circuit. What holds of new circuits and
survives each case of `Change.Makes` holds of every circuit that is `Reachable`.

* `Reachable.tableAgrees`: registers have names of their own and room for their bits, and the bits are
  those of the registers;
* `Reachable.sound`: every command fits the circuit, also long after it has been added;
* `Reachable.command_wellPlaced`: what this means for each command.
-/

namespace CallCircuit

open Edit
open Wasm (Handle)

/-! ## Changes -/

/-- An edit that a circuit can be asked for. -/
inductive Change where
  | addRegister (name : String) (size : UInt64)
  | growSlots (least : UInt64)
  | addCall (function : String) (h : Handle) (inputs outputs : List UInt32) (bits : List Bit)
      (slots : Option (List Slot)) (options : CallOptions)
  | addRegisterCall (function : String) (h : Handle) (inputs outputs : List Register)
      (slots : Option (List Slot)) (options : CallOptions)

namespace Change

/-- Carries out a change. -/
def edit : Change → Edit Unit
  | .addRegister name size => discard (Edit.addRegister name size)
  | .growSlots least => discard (Edit.growSlots least)
  | .addCall function h inputs outputs bits slots options =>
    Edit.addCall function h inputs outputs bits slots options
  | .addRegisterCall function h inputs outputs slots options =>
    Edit.addRegisterCall function h inputs outputs slots options

/-- The change is a call that passes the checks ahead of its placement. -/
inductive Places (c : Circuit) : Change → Placement → Prop where
  | call {function : String} {h : Handle} {inputs outputs : List UInt32} {bits : List Bit}
      {slots : Option (List Slot)} {options : CallOptions}
      (accepted : checkCall function h inputs outputs bits = .ok ()) :
      Places c (.addCall function h inputs outputs bits slots options)
        (callPlacement function h inputs outputs bits slots options)
  | registerCall {function : String} {h : Handle} {inputs outputs : List Register}
      {slots : Option (List Slot)} {options : CallOptions}
      (accepted : checkRegisterCall c function h inputs outputs = .ok ()) :
      Places c (.addRegisterCall function h inputs outputs slots options)
        (registerPlacement function h inputs outputs slots options)

/-- What a change can make of a circuit. -/
inductive Makes (c : Circuit) : Change → Circuit → Prop where
  | nothing (change : Change) : Makes c change c
  | register {name : String} {size : UInt64} (fresh : c.register? name = none)
      (fits : Register.Fits ⟨name, size⟩) :
      Makes c (.addRegister name size) (c.withRegister ⟨name, size⟩)
  | slots (least : UInt64) : Makes c (.growSlots least) (c.withSlots least)
  | command {change : Change} {p : Placement} {terms : Option Guard × UInt64}
      (places : change.Places c p) (placed : p.verdict c = .ok terms) :
      Makes c change ((c.withSlots terms.2).withCommand (p.command terms.1))

theorem makes_of_check {c : Circuit} {change : Change} {p : Placement}
    {check : Except Failure Unit} (h : check = .ok () → change.Places c p) :
    change.Makes c (Outcome.ofCheck c (do check; p.verdict c) (p.change c)).value := by
  cases check with
  | error f => exact .nothing change
  | ok u =>
    rw [ok_bind]
    cases hp : p.verdict c with
    | error f => exact .nothing change
    | ok terms => exact .command (h rfl) hp

theorem makes (change : Change) (c : Circuit) : change.Makes c (change.edit.apply c).value := by
  cases change with
  | addRegister name size =>
    rw [edit, (addRegister_yields name size c).discard.apply]
    by_cases h : (c.register? name).isSome
    · simpa only [if_pos h] using .nothing _
    · by_cases hf : Register.Fits ⟨name, size⟩
      · simpa only [if_neg h, if_pos hf] using .register (Option.not_isSome_iff_eq_none.1 h) hf
      · simpa only [if_neg h, if_neg hf] using .nothing _
  | growSlots least =>
    rw [edit, (growSlots_yields least c).discard.apply]
    exact .slots least
  | addCall function h inputs outputs bits slots options =>
    rw [edit, (addCall_yields function h inputs outputs bits slots options c).apply]
    exact makes_of_check fun h => .call (lift_eq_ok_iff.1 h)
  | addRegisterCall function h inputs outputs slots options =>
    rw [edit, (addRegisterCall_yields function h inputs outputs slots options c).apply]
    exact makes_of_check .registerCall

end Change

/-! ## Reachable circuits -/

/-- A new circuit, or one that has been read from a text. When there is no room for the bits of a new
circuit, none of them is there. -/
inductive Circuit.IsSource : Circuit → Prop where
  | empty : IsSource {}
  | named (name : String) : IsSource { name }
  | withBits (bitCount : UInt64) : IsSource ((pushDefaultRegister bitCount).apply {}).value
  | read {text : String} {c : Circuit} (h : (Circuit.ofText text).1 = .ok c) : IsSource c

theorem value_pushDefaultRegister (bitCount : UInt64) :
    ((pushDefaultRegister bitCount).apply {}).value = {} ∨
      Register.Fits ⟨defaultRegister, bitCount⟩ ∧
        ((pushDefaultRegister bitCount).apply {}).value =
          Circuit.withRegister {} ⟨defaultRegister, bitCount⟩ := by
  rw [(pushDefaultRegister_yields bitCount {}).apply]
  by_cases h : bitCount = 0
  · exact .inl (by rw [if_pos h])
  · by_cases hf : Register.Fits ⟨defaultRegister, bitCount⟩
    · exact .inr ⟨hf, by rw [if_neg h, if_pos hf]⟩
    · exact .inl (by rw [if_neg h, if_neg hf])

theorem commands_pushDefaultRegister (bitCount : UInt64) :
    ((pushDefaultRegister bitCount).apply {}).value.commands = [] := by
  rcases value_pushDefaultRegister bitCount with h | ⟨-, h⟩
  · rw [h]
  · rw [h]
    rfl

/-- A source, or what a change among those allowed has left of a reachable circuit, whether it has
succeeded or failed. -/
inductive Reachable (allowed : Change → Prop) : Circuit → Prop where
  | source {c : Circuit} (h : c.IsSource) : Reachable allowed c
  | change {c : Circuit} {change : Change} (h : Reachable allowed c) (ha : allowed change) :
      Reachable allowed (change.edit.apply c).value

/-- What holds of sources and is preserved by what an allowed change makes of a circuit holds of
every reachable circuit. -/
theorem Reachable.invariant {allowed : Change → Prop} {inv : Circuit → Prop}
    (hsource : ∀ c, c.IsSource → inv c)
    (hmakes : ∀ c c' change, allowed change → inv c → change.Makes c c' → inv c') {c : Circuit}
    (h : Reachable allowed c) : inv c := by
  induction h with
  | source h => exact hsource _ h
  | change h ha ih => exact hmakes _ _ _ ha ih (Change.makes _ _)

theorem Circuit.ofText_ok {text : String} {c : Circuit} (h : (ofText text).1 = .ok c) :
    ∃ j d, Json.read? text = some (j, []) ∧ Description.ofJson? j = some d ∧ d.Consistent ∧
      c = d.circuit := by
  unfold ofText at h
  cases hj : Json.read? text with
  | none => simp [hj] at h
  | some read =>
    obtain ⟨j, rest⟩ := read
    cases hd : Description.ofJson? j with
    | none => simp [hj, hd] at h
    | some d =>
      simp only [hj, hd] at h
      cases hr : (d.build.apply {}).result with
      | error f => simp [hr] at h
      | ok u =>
        cases rest with
        | cons token rest => simp [hr] at h
        | nil =>
          simp only [hr, List.isEmpty_nil, ↓reduceIte, Except.ok.injEq] at h
          exact ⟨j, d, rfl, hd, Description.build_ok hr h⟩

/-! ## The register table -/

/-- Registers have names of their own, there is room for the bits of each, and the bits are theirs. -/
structure Circuit.TableAgrees (c : Circuit) : Prop where
  names : c.HasDistinctNames
  sizes : ∀ r ∈ c.registers, r.Fits
  bits : c.bits = c.registers.flatMap Register.bits

theorem Circuit.tableAgrees_of_no_registers {c : Circuit} (hr : c.registers = [])
    (hb : c.bits = []) : c.TableAgrees := by
  refine ⟨?_, ?_, ?_⟩
  · rw [HasDistinctNames, hr]
    exact List.nodup_nil
  · rw [hr]
    exact List.forall_mem_nil _
  · rw [hr, hb]
    rfl

theorem Circuit.TableAgrees.withRegister {c : Circuit} (h : c.TableAgrees) {r : Register}
    (hr : c.register? r.name = none) (hf : r.Fits) : (c.withRegister r).TableAgrees := by
  rw [register?_eq_none_iff] at hr
  have hsizes : ∀ s ∈ (c.withRegister r).registers, s.Fits := by
    rw [Circuit.withRegister, List.forall_mem_append, List.forall_mem_singleton]
    exact ⟨h.sizes, hf⟩
  refine ⟨?_, hsizes, by simp [Circuit.withRegister, h.bits]⟩
  rw [HasDistinctNames, Circuit.withRegister, List.map_append, List.nodup_append]
  refine ⟨h.names, List.pairwise_singleton _ _, ?_⟩
  rintro name hn _ (_ | ⟨_, ⟨⟩⟩) rfl
  exact hr hn

theorem Circuit.IsSource.tableAgrees {c : Circuit} (h : c.IsSource) : c.TableAgrees := by
  have hempty (name : Option String) : ({ name } : Circuit).TableAgrees :=
    tableAgrees_of_no_registers rfl rfl
  cases h with
  | empty => exact hempty none
  | named name => exact hempty name
  | withBits bitCount =>
    rcases value_pushDefaultRegister bitCount with h | ⟨hf, h⟩
    · rw [h]
      exact hempty none
    · rw [h]
      exact (hempty none).withRegister rfl hf
  | read h =>
    obtain ⟨_, d, -, -, hd, rfl⟩ := ofText_ok h
    exact ⟨hd.registers.names, hd.registers.sizes, rfl⟩

theorem Change.Makes.tableAgrees {c c' : Circuit} {change : Change} (h : change.Makes c c')
    (hc : c.TableAgrees) : c'.TableAgrees := by
  cases h with
  | nothing => exact hc
  | register fresh fits => exact hc.withRegister fresh fits
  | slots least => exact ⟨hc.names, hc.sizes, hc.bits⟩
  | command places placed => exact ⟨hc.names, hc.sizes, hc.bits⟩

theorem Reachable.tableAgrees {allowed : Change → Prop} {c : Circuit} (h : Reachable allowed c) :
    c.TableAgrees :=
  h.invariant (fun _ => Circuit.IsSource.tableAgrees) fun _ _ _ _ hc hm => hm.tableAgrees hc

/-! ## Commands -/

/-- No list in the command that the placement may come to is longer than a word counts. -/
def Placement.Countable (p : Placement) : Prop :=
  p.inputs.length < UInt64.size ∧ p.outputs.length < UInt64.size ∧
    ∀ guard, p.options.guard = .ok guard → (p.command guard).args.length < UInt64.size

/-- The lists of the change are no longer than a word counts. Through an unchecked handle, the
size of a register is besides as small as a width. -/
def Change.Proper : Change → Prop
  | .addRegister _ _ | .growSlots _ => True
  | .addCall function h inputs outputs bits slots options =>
    (callPlacement function h inputs outputs bits slots options).Countable
  | .addRegisterCall function h inputs outputs slots options =>
    (registerPlacement function h inputs outputs slots options).Countable ∧
      (h.checked = false → ∀ r ∈ inputs ++ outputs, r.size.toNat < UInt32.size)

instance (p : Placement) : Decidable p.Countable :=
  match h : p.options.guard with
  | .ok guard => decidable_of_iff
      (p.inputs.length < UInt64.size ∧ p.outputs.length < UInt64.size ∧
        (p.command guard).args.length < UInt64.size) (by simp [Placement.Countable, h])
  | .error _ => decidable_of_iff (p.inputs.length < UInt64.size ∧ p.outputs.length < UInt64.size)
      (by simp [Placement.Countable, h])

instance (change : Change) : Decidable change.Proper :=
  match change with
  | .addRegister _ _ | .growSlots _ => .isTrue trivial
  | .addCall .. => inferInstanceAs (Decidable (Placement.Countable _))
  | .addRegisterCall .. => inferInstanceAs (Decidable (Placement.Countable _ ∧ (_ → ∀ r ∈ _, _)))

theorem checkCall_ok {function : String} {h : Handle} {inputs outputs : List UInt32}
    {bits : List Bit} (hc : checkCall function h inputs outputs bits = .ok ()) :
    bits.length = totalWidth (inputs ++ outputs) := by
  unfold checkCall at hc
  cases hw : checkWidths inputs outputs h.intSize.bits with
  | error e => simp [hw] at hc
  | ok u =>
    by_cases ha : h.accepts function ⟨inputs.length, outputs.length⟩
    · simpa [hw, ha] using hc
    · simp [hw, ha] at hc

theorem checkRegisterCall_ok {c : Circuit} {function : String} {h : Handle}
    {inputs outputs : List Register} (hc : checkRegisterCall c function h inputs outputs = .ok ())
    (hh : h.checked = true) : ∀ r ∈ inputs ++ outputs, r.size ≤ maxRegisterSize := by
  have hr := checkRegisters_ok hh hc
  rw [checkRegisters] at hr
  cases hf : (inputs ++ outputs).find? (maxRegisterSize < ·.size) with
  | some r => simp [hf] at hr
  | none => exact fun r hm => by simpa using List.find?_eq_none.1 hf r hm

theorem Change.Proper.sized {c : Circuit} {change : Change} {p : Placement}
    {guard : Option Guard} (h : change.Proper) (hp : change.Places c p)
    (hg : p.options.guard = .ok guard) : p.Sized guard := by
  cases hp with
  | call accepted =>
    exact ⟨h.1, h.2.1, h.2.2 guard hg, checkCall_ok accepted⟩
  | @registerCall function handle inputs outputs slots options accepted =>
    obtain ⟨⟨hi, ho, ha⟩, hr⟩ := h
    refine ⟨hi, ho, ha guard hg, ?_⟩
    have hsizes : ∀ r ∈ inputs ++ outputs, r.size.toNat < UInt32.size := by
      cases hh : handle.checked with
      | false => exact hr hh
      | true =>
        intro r hm
        have := UInt64.le_iff_toNat_le.1 (checkRegisterCall_ok accepted hh r hm)
        exact Nat.lt_of_le_of_lt this (by decide)
    have hb := (widthsOf_recordedWidths hsizes).totalWidth_eq.symm
    rw [recordedWidths, List.map_append] at hb
    exact hb

/-- The register table agrees, and every command fits. -/
def Circuit.Sound (c : Circuit) : Prop := c.description.Consistent

theorem Circuit.sound_iff {c : Circuit} :
    c.Sound ↔ c.TableAgrees ∧
      ∀ command ∈ c.commands, CommandFits (·.LiesIn c.registers) c.slotCount command := by
  constructor
  · exact fun ⟨⟨hn, hs⟩, hb, hc⟩ => ⟨⟨hn, hs, hb c.bits rfl⟩, hc⟩
  · intro hx
    obtain ⟨⟨hn, hs, hb⟩, hc⟩ := hx
    exact ⟨⟨hn, hs⟩, fun bits h => (Option.some.inj h).symm.trans hb, hc⟩

theorem Circuit.Sound.circuit_description {c : Circuit} (h : c.Sound) :
    c.description.circuit = c := by
  have hb := (sound_iff.1 h).1.bits
  cases c
  simpa [Circuit.description, Description.circuit] using hb.symm

theorem Circuit.IsSource.sound {c : Circuit} (h : c.IsSource) : c.Sound := by
  refine Circuit.sound_iff.2 ⟨h.tableAgrees, ?_⟩
  cases h with
  | empty => simp
  | named name => simp
  | withBits bitCount =>
    rw [commands_pushDefaultRegister]
    exact List.forall_mem_nil _
  | read h =>
    obtain ⟨_, d, -, -, hd, rfl⟩ := ofText_ok h
    exact hd.commands

theorem Change.Makes.sound {c c' : Circuit} {change : Change} (h : change.Makes c c')
    (hp : change.Proper) (hc : c.Sound) : c'.Sound := by
  obtain ⟨ht, hc⟩ := Circuit.sound_iff.1 hc
  refine Circuit.sound_iff.2 ⟨h.tableAgrees ht, ?_⟩
  cases h with
  | nothing => exact hc
  | register fresh =>
    intro command hm
    exact (hc command hm).mono (fun b ⟨r, hr, hb⟩ => ⟨r, List.mem_append_left _ hr, hb⟩)
      (UInt64.le_refl _)
  | slots least =>
    exact fun command hm => (hc command hm).mono (fun _ => id) (slotCount_le_withSlots c least)
  | @command _ p terms places placed =>
    -- the new command fits with the slots it needs, and older ones also fit with more slots
    have hg := (((Placement.verdict_placement p c).ok_iff terms).1 placed).1
    have hf := Placement.command_fits (hp.sized places hg) placed
    simp only [Circuit.withCommand, List.forall_mem_append, List.forall_mem_singleton]
    exact ⟨fun command hm => (hc command hm).mono (fun _ => id) (slotCount_le_withSlots c _),
      hf.mono (fun b => (Circuit.containsBit_iff ht.names).1) (UInt64.le_refl _)⟩

theorem Reachable.sound {c : Circuit} (h : Reachable Change.Proper c) : c.Sound :=
  h.invariant (fun _ => Circuit.IsSource.sound) fun _ _ _ hp hc hm => hm.sound hp hc

/-! ## A circuit with a guarded call -/

/-- A module with no section. -/
def emptyModule : Wasm.Bytes := [0x00, 0x61, 0x73, 0x6d, 0x01, 0x00, 0x00, 0x00]

/-- A handle on a module that has not been checked. -/
def uncheckedHandle : Handle where
  bytes := emptyModule
  uid := "93a44bbb96c751218e4c00d479e4c14358122a389acca16205b1e4d0dc5f9476"
  intSize := .bits32

/-- A condition on the first bit. -/
def guardedOptions : CallOptions := { condition := some (.isSet ⟨defaultRegister, 0⟩) }

/-- A call with one input and one output bit, under a condition on another bit. -/
def guardedCall : Change :=
  .addCall "add_one" uncheckedHandle [1] [1] [⟨defaultRegister, 1⟩, ⟨defaultRegister, 2⟩] none
    guardedOptions

/-- A circuit of three bits. -/
def threeBits : Circuit := ((pushDefaultRegister 3).apply {}).value

/-- A circuit of three bits after `guardedCall`. -/
def guardedCircuit : Circuit := (guardedCall.edit.apply threeBits).value

/-- The command that `guardedCall` becomes. -/
def guardedCommand : Command where
  op := .conditional (.call (.ofWidths "add_one" uncheckedHandle.uid [1] [1] 1)) 1 1
  args := [.bit ⟨defaultRegister, 0⟩, .bit ⟨defaultRegister, 1⟩, .bit ⟨defaultRegister, 2⟩,
    .slot ⟨0⟩]
  group := none

theorem guardedCircuit_commands : guardedCircuit.commands = [guardedCommand] := by decide +kernel

theorem reachable_guardedCircuit : Reachable Change.Proper guardedCircuit :=
  .change (.source (.withBits 3)) (by decide +kernel)

/-! ## What a command looks like -/

/-- The list in consecutive groups of these lengths. -/
theorem exists_groups {α : Type} {l : List α} {lengths : List Nat} (h : l.length = lengths.sum) :
    ∃ groups : List (List α), groups.map List.length = lengths ∧ groups.flatten = l := by
  induction lengths generalizing l with
  | nil => exact ⟨[], rfl, (List.length_eq_zero_iff.1 h).symm⟩
  | cons n lengths ih =>
    rw [List.sum_cons] at h
    obtain ⟨groups, hl, hg⟩ := ih (l := l.drop n) (by rw [List.length_drop]; omega)
    refine ⟨l.take n :: groups, ?_, ?_⟩
    · rw [List.map_cons, hl, List.length_take, Nat.min_eq_left (by omega)]
    · rw [List.flatten_cons, hg, List.take_append_drop]

/-- How a command stands in a circuit. It acts on a group of bits for each condition, the
outermost first, on one for each input and then for each output, and last on the slots. -/
structure Circuit.WellPlaced (c : Circuit) (command : Command)
    (conditions inputs outputs : List (List Bit)) (slots : List Slot) : Prop where
  holds : ∀ condition ∈ command.op.conditions,
    condition.1.toNat ≤ 64 ∧ condition.2.toNat < 2 ^ condition.1.toNat
  inputCount : command.op.innermost.inputCount.toNat = command.op.innermost.inputWidths.length
  outputCount : command.op.innermost.outputCount.toNat = command.op.innermost.outputWidths.length
  bitCount : command.op.innermost.bitCount.toNat =
    totalWidth command.op.innermost.inputWidths + totalWidth command.op.innermost.outputWidths
  args : command.args = (conditions ++ inputs ++ outputs).flatten.map .bit ++ slots.map .slot
  condition_lengths : conditions.map List.length = command.op.conditions.map (·.1.toNat)
  input_lengths : inputs.map List.length = command.op.innermost.inputWidths.map UInt32.toNat
  output_lengths : outputs.map List.length = command.op.innermost.outputWidths.map UInt32.toNat
  total : command.op.bitCount? = some (.ofNat (conditions ++ inputs ++ outputs).flatten.length)
  no_overflow : (conditions ++ inputs ++ outputs).flatten.length < UInt64.size
  slots_length : slots.length = command.op.slotCount.toNat
  bits_known : ∀ b ∈ (conditions ++ inputs ++ outputs).flatten, b.LiesIn c.registers
  slots_known : ∀ s ∈ slots, s.index < c.slotCount
  nodup : command.args.Nodup

theorem operands_nodup {bits : List Bit} {slots : List Slot} (hb : bits.Nodup)
    (hs : slots.Nodup) : (bits.map Operand.bit ++ slots.map Operand.slot).Nodup := by
  rw [List.nodup_append]
  refine ⟨?_, ?_, ?_⟩
  · exact List.Pairwise.map _ (fun _ _ h e => h (Operand.bit.inj e)) hb
  · exact List.Pairwise.map _ (fun _ _ h e => h (Operand.slot.inj e)) hs
  · simp

theorem Circuit.wellPlaced_of_fits {c : Circuit} {command : Command}
    (h : CommandFits (·.LiesIn c.registers) c.slotCount command) :
    ∃ conditions inputs outputs slots, c.WellPlaced command conditions inputs outputs slots := by
  obtain ⟨⟨hholds, hi, ho, hn⟩, htotal, bits, slots, hl, hs, hu⟩ := h
  rw [totalWidth_append] at hn
  have hlength : bits.length = (command.op.conditions.map (·.1.toNat) ++
      command.op.innermost.inputWidths.map UInt32.toNat ++
      command.op.innermost.outputWidths.map UInt32.toNat).sum := by
    rw [hl.bits_length, Operation.bitTotal, hn, totalWidth_eq_sum, totalWidth_eq_sum,
      List.sum_append_nat, List.sum_append_nat, Nat.add_assoc]
  obtain ⟨groups, hg, rfl⟩ := exists_groups hlength
  obtain ⟨front, outputs, rfl, hf, houtputs⟩ := List.map_eq_append_iff.1 hg
  obtain ⟨conditions, inputs, rfl, hconditions, hinputs⟩ := List.map_eq_append_iff.1 hf
  have hsize : command.op.bitTotal < UInt64.size := by
    rw [Operation.argTotal] at htotal
    omega
  exact ⟨conditions, inputs, outputs, slots, {
    holds := hholds
    inputCount := hi
    outputCount := ho
    bitCount := hn
    args := hl.args
    condition_lengths := hconditions
    input_lengths := hinputs
    output_lengths := houtputs
    total := by rw [bitCount?_eq, if_pos hsize, hl.bits_length]
    no_overflow := by rw [hl.bits_length]; exact hsize
    slots_length := hl.slots_length
    bits_known := hu.known
    slots_known := hs
    nodup := by rw [hl.args]; exact operands_nodup hu.bits_nodup hu.slots_nodup }⟩

theorem Circuit.Sound.checkCommand {c : Circuit} (h : c.Sound) {command : Command}
    (hm : command ∈ c.commands) : c.checkCommand command = .ok () := by
  obtain ⟨ht, hc⟩ := Circuit.sound_iff.1 h
  rw [(verdict_checkCommand c command).ok_iff]
  exact (hc command hm).mono (fun b => (Circuit.containsBit_iff ht.names).2) (UInt64.le_refl _)

/-- Every command of a circuit that is reached by proper changes passes the check for commands from
outside, and stands in the circuit as it should. -/
theorem Reachable.command_wellPlaced {c : Circuit} (h : Reachable Change.Proper c)
    {command : Command} (hm : command ∈ c.commands) :
    c.checkCommand command = .ok () ∧
      ∃ conditions inputs outputs slots, c.WellPlaced command conditions inputs outputs slots :=
  ⟨h.sound.checkCommand hm,
    Circuit.wellPlaced_of_fits ((Circuit.sound_iff.1 h.sound).2 command hm)⟩

theorem guardedCommand_wellPlaced :
    Reachable Change.Proper guardedCircuit ∧ guardedCommand ∈ guardedCircuit.commands ∧
      guardedCircuit.checkCommand guardedCommand = .ok () ∧
        ∃ conditions inputs outputs slots,
          guardedCircuit.WellPlaced guardedCommand conditions inputs outputs slots := by
  have hm : guardedCommand ∈ guardedCircuit.commands := by
    rw [guardedCircuit_commands]
    exact List.mem_singleton_self _
  exact ⟨reachable_guardedCircuit, hm, reachable_guardedCircuit.command_wellPlaced hm⟩

end CallCircuit
