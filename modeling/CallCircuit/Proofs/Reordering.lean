import Mathlib.Data.Fin.VecNotation
import Mathlib.Data.List.FinRange
import Mathlib.Order.Lattice.Nat
import CallCircuit.Proofs.CheckedCalls

/-!
# The order of calls

What a call or a request for slots comes to depends on the registers of the circuit, and on nothing
else in it. Such changes leave the registers as they are, so in a run of them each one comes to what
it would come to at the start, in any order. Registers are only ever added behind the others, so a
call that succeeds once also succeeds later.

* `Change.addition`: what a change adds to a circuit apart from a register, or why it fails;
* `Change.apply_result`, `Change.apply_value`: this is what becomes of the circuit;
* `Change.addition_congr`, `Change.addition_mono`: the addition in a circuit with the same
  registers, and a successful one with more registers;
* `Circuit.effects_eq`, `Circuit.after_eq`: so each change of a run has the effect that it has at
  the start;
* `Circuit.insertions_independent`: calls do not depend on their order or on what comes before them.
-/

namespace CallCircuit

open Edit
open Wasm (Handle)

/-! ## What a change adds -/

/-- Commands to append, and the least number of slots after it. -/
structure Addition where
  commands : List Command := []
  slots : UInt64 := 0

/-- What a call that has passed these checks adds. -/
def Placement.addition (p : Placement) (c : Circuit) (check : Except Failure Unit) :
    Except Failure Addition := do
  check
  let terms ← p.verdict c
  return ⟨[p.command terms.1], terms.2⟩

namespace Change

/-- What a change adds to a circuit apart from a register, or why it fails. -/
def addition (c : Circuit) : Change → Except Failure Addition
  | .addRegister name size =>
    if (c.register? name).isSome then .error (.refused (.registerExists name))
    else if Register.Fits ⟨name, size⟩ then .ok {} else .error .capacity
  | .growSlots least => .ok { slots := least }
  | .addCall function h inputs outputs bits slots options =>
    (callPlacement function h inputs outputs bits slots options).addition c
      (Failure.lift (checkCall function h inputs outputs bits))
  | .addRegisterCall function h inputs outputs slots options =>
    (registerPlacement function h inputs outputs slots options).addition c
      (checkRegisterCall c function h inputs outputs)

/-- What a change adds, which is nothing if it fails. -/
def added (c : Circuit) (change : Change) : Addition := (change.addition c).toOption.getD {}

/-- The change is a call or a request for slots. -/
def LeavesRegisters : Change → Prop
  | .addRegister .. => False
  | .growSlots _ | .addCall .. | .addRegisterCall .. => True

end Change

/-- The circuit with an addition. -/
def Circuit.withAddition (c : Circuit) (a : Addition) : Circuit :=
  (c.withSlots a.slots).withCommands a.commands

theorem Circuit.withAddition_nothing (c : Circuit) : c.withAddition {} = c := by
  have : ¬ c.slotCount < 0 := UInt64.not_lt_zero
  simp [withAddition, withCommands, withSlots, this]

section Step

variable {c c' : Circuit} {change : Change}

theorem Placement.apply_addition (p : Placement) (c : Circuit) (check : Except Failure Unit) :
    let out := Outcome.ofCheck c (do check; p.verdict c) (p.change c)
    out.result = (p.addition c check).map (fun _ => ()) ∧
      out.value = c.withAddition ((p.addition c check).toOption.getD {}) := by
  unfold addition
  cases check with
  | error f => exact ⟨rfl, c.withAddition_nothing.symm⟩
  | ok u =>
    rw [ok_bind]
    cases p.verdict c with
    | error f => exact ⟨rfl, c.withAddition_nothing.symm⟩
    | ok terms => exact ⟨rfl, rfl⟩

/-- A change succeeds exactly if there is something for it to add, be it nothing. -/
theorem Change.apply_result (change : Change) (c : Circuit) :
    (change.edit.apply c).result = (change.addition c).map fun _ => () := by
  cases change with
  | addRegister name size =>
    rw [edit, (addRegister_yields name size c).discard.apply, addition]
    split
    · rfl
    · split <;> rfl
  | growSlots least =>
    rw [edit, (growSlots_yields least c).discard.apply]
    rfl
  | addCall function h inputs outputs bits slots options =>
    rw [edit, (addCall_yields function h inputs outputs bits slots options c).apply]
    exact (Placement.apply_addition _ c _).1
  | addRegisterCall function h inputs outputs slots options =>
    rw [edit, (addRegisterCall_yields function h inputs outputs slots options c).apply]
    exact (Placement.apply_addition _ c _).1

/-- A change that leaves the registers makes its addition. -/
theorem Change.apply_value (hl : change.LeavesRegisters) (c : Circuit) :
    (change.edit.apply c).value = c.withAddition (change.added c) := by
  cases change with
  | addRegister name size => cases hl
  | growSlots least =>
    rw [edit, (growSlots_yields least c).discard.apply]
    simp [added, addition, Except.toOption, Circuit.withAddition, Circuit.withCommands]
  | addCall function h inputs outputs bits slots options =>
    rw [edit, (addCall_yields function h inputs outputs bits slots options c).apply]
    exact (Placement.apply_addition _ c _).2
  | addRegisterCall function h inputs outputs slots options =>
    rw [edit, (addRegisterCall_yields function h inputs outputs slots options c).apply]
    exact (Placement.apply_addition _ c _).2

/-! ## The same registers, and more registers -/

theorem Circuit.register?_congr (hr : c'.registers = c.registers) :
    c'.register? = c.register? := by
  funext name
  rw [register?, register?, hr]

theorem Circuit.containsBit_congr (hr : c'.registers = c.registers) :
    c'.containsBit = c.containsBit := by
  funext b
  rw [containsBit, containsBit, register?_congr hr]

theorem Placement.verdict_congr (hr : c'.registers = c.registers) (p : Placement) :
    p.verdict c' = p.verdict c := by
  have h := verdict_placement p c'
  rw [Circuit.containsBit_congr hr] at h
  exact h.eq (verdict_placement p c)

theorem Placement.addition_congr (hr : c'.registers = c.registers) (p : Placement)
    (check : Except Failure Unit) : p.addition c' check = p.addition c check := by
  rw [addition, addition, p.verdict_congr hr]

theorem checkKnown_congr (hr : c'.registers = c.registers) (registers : List Register) :
    checkKnown c' registers = checkKnown c registers := by
  induction registers with
  | nil => rfl
  | cons r registers ih => rw [checkKnown, checkKnown, ih, Circuit.register?_congr hr]

theorem checkRegisterCall_congr (hr : c'.registers = c.registers) (function : String) (h : Handle)
    (inputs outputs : List Register) :
    checkRegisterCall c' function h inputs outputs = checkRegisterCall c function h inputs outputs := by
  rw [checkRegisterCall, checkRegisterCall, checkKnown_congr hr]

/-- Only the registers of a circuit say what a change adds to it. -/
theorem Change.addition_congr (hr : c'.registers = c.registers) (change : Change) :
    change.addition c' = change.addition c := by
  cases change with
  | addRegister name size => rw [addition, addition, Circuit.register?_congr hr]
  | growSlots least => rfl
  | addCall function h inputs outputs bits slots options =>
    rw [addition, addition, Placement.addition_congr hr]
  | addRegisterCall function h inputs outputs slots options =>
    rw [addition, addition, Placement.addition_congr hr, checkRegisterCall_congr hr]

theorem Circuit.register?_mono (hr : c.registers <+: c'.registers) {name : String}
    {r : Register} (h : c.register? name = some r) : c'.register? name = some r :=
  hr.find?_eq_some h

theorem Circuit.containsBit_mono (hr : c.registers <+: c'.registers) {b : Bit}
    (h : c.containsBit b = true) : c'.containsBit b = true := by
  rw [containsBit, Option.any_eq_true] at h ⊢
  obtain ⟨r, h, hb⟩ := h
  exact ⟨r, register?_mono hr h, hb⟩

theorem Placement.verdict_mono (hr : c.registers <+: c'.registers) {p : Placement}
    {terms : Option Guard × UInt64} (h : p.verdict c = .ok terms) : p.verdict c' = .ok terms := by
  rw [(verdict_placement p c).ok_iff] at h
  rw [(verdict_placement p c').ok_iff]
  obtain ⟨hg, hu, hn⟩ := h
  exact ⟨hg, ⟨fun b hb => Circuit.containsBit_mono hr (hu.known b hb), hu.bits_nodup,
    hu.slots_nodup⟩, hn⟩

theorem checkRegisterCall_mono (hr : c.registers <+: c'.registers) {function : String}
    {h : Handle} {inputs outputs : List Register}
    (hc : checkRegisterCall c function h inputs outputs = .ok ()) :
    checkRegisterCall c' function h inputs outputs = .ok () := by
  simp only [checkRegisterCall_eq, bind_eq_ok_iff, checkKnown_ok_iff] at hc ⊢
  obtain ⟨u, hmodule, hknown⟩ := hc
  exact ⟨u, hmodule, fun r hm => (hknown r hm).imp_left (Circuit.register?_mono hr)⟩

theorem Placement.addition_mono (hr : c.registers <+: c'.registers) {p : Placement}
    {check check' : Except Failure Unit} (hc : check = .ok () → check' = .ok ())
    {a : Addition} (h : p.addition c check = .ok a) : p.addition c' check' = .ok a := by
  unfold addition at h ⊢
  cases check with
  | error f => cases h
  | ok u =>
    rw [ok_bind] at h
    obtain ⟨terms, hp, ha⟩ := bind_eq_ok_iff.1 h
    rw [hc rfl, ok_bind, verdict_mono hr hp]
    exact ha

/-- A change other than a new register that succeeds also succeeds with more registers, and adds
the same. -/
theorem Change.addition_mono (hr : c.registers <+: c'.registers) (hl : change.LeavesRegisters)
    {a : Addition} (h : change.addition c = .ok a) : change.addition c' = .ok a := by
  cases change with
  | addRegister name size => cases hl
  | growSlots least => exact h
  | addCall function handle inputs outputs bits slots options =>
    exact Placement.addition_mono hr id h
  | addRegisterCall function handle inputs outputs slots options =>
    exact Placement.addition_mono hr (checkRegisterCall_mono hr) h

/-! ## The effect of a change -/

/-- What a change comes to: its result and the commands that it appends. -/
structure Effect where
  result : Except Failure Unit
  appended : List Command

/-- The effect of a change on a circuit. -/
def Change.effect (c : Circuit) (change : Change) : Effect where
  result := (change.edit.apply c).result
  appended := (change.edit.apply c).value.commands.drop c.commands.length

theorem Change.effect_eq (hl : change.LeavesRegisters) (c : Circuit) :
    change.effect c = ⟨(change.addition c).map fun _ => (), (change.added c).commands⟩ := by
  rw [effect, apply_result, apply_value hl]
  simp [Circuit.withAddition, Circuit.withCommands, Circuit.withSlots]

theorem Change.added_congr (hr : c'.registers = c.registers) (change : Change) :
    change.added c' = change.added c := by
  rw [added, added, addition_congr hr]

theorem Change.effect_congr (hr : c'.registers = c.registers) (hl : change.LeavesRegisters) :
    change.effect c' = change.effect c := by
  rw [effect_eq hl, effect_eq hl, addition_congr hr, added_congr hr]

/-- The slots that a call acts on. -/
def Change.slots : Change → List Slot
  | .addRegister .. | .growSlots _ => []
  | .addCall _ _ _ _ _ slots _ | .addRegisterCall _ _ _ _ slots _ => slots.getD defaultSlots

theorem Placement.addition_ok {p : Placement} {check : Except Failure Unit} {a : Addition}
    (h : p.addition c check = .ok a) :
    ∃ guard, a.commands = [p.command guard] ∧ a.slots.toNat = slotBound 0 p.slots := by
  unfold addition at h
  cases check with
  | error f => cases h
  | ok u =>
    rw [ok_bind] at h
    obtain ⟨terms, hp, ⟨⟩⟩ := bind_eq_ok_iff.1 h
    obtain ⟨-, -, hlast, hn⟩ := ((verdict_placement p c).ok_iff terms).1 hp
    refine ⟨terms.1, rfl, ?_⟩
    rw [hn, UInt64.toNat_ofNat_of_lt' (slotBound_lt_size_iff.2 hlast)]

theorem Placement.slots_added_le_iff {p : Placement} {check : Except Failure Unit}
    {limit : Nat} :
    ((p.addition c check).toOption.getD {}).slots.toNat ≤ limit ↔
      ((p.addition c check).map (fun _ => ()) = .ok () →
        ∀ s ∈ p.slots, s.index.toNat + 1 ≤ limit) := by
  cases h : p.addition c check with
  | error f => simp [Except.toOption, Except.map]
  | ok a =>
    obtain ⟨-, -, hn⟩ := addition_ok h
    simp only [Except.toOption, Except.map, Option.getD_some, hn, slotBound_le_iff, Nat.zero_le,
      true_and, forall_const, Nat.succ_le_iff]

/-- A change needs the slots that it requests or, if it succeeds, acts on. -/
theorem Change.slots_added_le_iff {limit : Nat} (hl : change.LeavesRegisters) :
    (change.added c).slots.toNat ≤ limit ↔
      (∀ least, change = .growSlots least → least.toNat ≤ limit) ∧
        ((change.effect c).result = .ok () → ∀ s ∈ change.slots, s.index.toNat + 1 ≤ limit) := by
  rw [effect_eq hl]
  cases change with
  | addRegister name size => cases hl
  | growSlots least => simp [added, addition, Except.toOption, slots]
  | addCall function h inputs outputs bits slots options =>
    exact Placement.slots_added_le_iff.trans (by simp [addition, Change.slots, callPlacement])
  | addRegisterCall function h inputs outputs slots options =>
    exact Placement.slots_added_le_iff.trans (by simp [addition, Change.slots, registerPlacement])

/-! ## Calls that succeed -/

theorem Change.leavesRegisters_of_handle? (hcall : change.handle?.isSome) :
    change.LeavesRegisters := by
  cases change with
  | addRegister name size => cases hcall
  | growSlots least | addCall | addRegisterCall => trivial

theorem Change.exists_addition (hok : (change.edit.apply c).result = .ok ()) :
    ∃ a, change.addition c = .ok a := by
  rw [apply_result] at hok
  cases h : change.addition c with
  | error f =>
    rw [h] at hok
    cases hok
  | ok a => exact ⟨a, rfl⟩

/-- A call that succeeds adds a single command. -/
theorem Change.addition_commands (hcall : change.handle?.isSome) {a : Addition}
    (h : change.addition c = .ok a) : ∃ command, a.commands = [command] := by
  cases change with
  | addRegister name size | growSlots least => cases hcall
  | addCall | addRegisterCall =>
    obtain ⟨guard, ha, -⟩ := Placement.addition_ok h
    exact ⟨_, ha⟩

/-! ## Runs -/

theorem Change.Makes.registers_mono (h : change.Makes c c') : c.registers <+: c'.registers := by
  cases h with
  | nothing => exact List.prefix_refl _
  | register fresh => exact List.prefix_append _ _
  | slots least => exact List.prefix_refl _
  | command places placed => exact List.prefix_refl _

theorem Circuit.registers_mono_after (c : Circuit) (changes : List Change) :
    c.registers <+: (c.after changes).registers := by
  induction changes generalizing c with
  | nil => exact List.prefix_refl _
  | cons change changes ih => exact (change.makes c).registers_mono.trans (ih _)

/-- What the changes of a run come to, each made to what the one before it has left. -/
def Circuit.effects (c : Circuit) : List Change → List Effect
  | [] => []
  | change :: changes => change.effect c :: (change.edit.apply c).value.effects changes

theorem Change.value_registers (hl : change.LeavesRegisters) (c : Circuit) :
    (change.edit.apply c).value.registers = c.registers := by
  rw [apply_value hl]
  rfl

variable {changes : List Change}

/-- In a run that leaves the registers, each change has the effect that it has at the start. -/
theorem Circuit.effects_eq (hl : ∀ change ∈ changes, change.LeavesRegisters) (c : Circuit) :
    c.effects changes = changes.map (·.effect c) := by
  induction changes generalizing c with
  | nil => rfl
  | cons change changes ih =>
    rw [List.forall_mem_cons] at hl
    have hr := change.value_registers hl.1 c
    rw [effects, ih hl.2, List.map_cons, List.map_congr_left fun change' hm =>
      Change.effect_congr hr (hl.2 change' hm)]

/-- What a run that leaves the registers makes of a circuit. The number of slots is the least one
that is as large as it was and as every addition asks. -/
theorem Circuit.after_eq (hl : ∀ change ∈ changes, change.LeavesRegisters) (c : Circuit) :
    ∃ count : UInt64,
      c.after changes = { c with
        slotCount := count
        commands := c.commands ++ (c.effects changes).flatMap Effect.appended } ∧
      ∀ limit, count.toNat ≤ limit ↔
        c.slotCount.toNat ≤ limit ∧ ∀ change ∈ changes, (change.added c).slots.toNat ≤ limit := by
  induction changes generalizing c with
  | nil => exact ⟨c.slotCount, by simp [after, effects], by simp⟩
  | cons change changes ih =>
    rw [List.forall_mem_cons] at hl
    have hr := change.value_registers hl.1 c
    obtain ⟨count, hafter, hcount⟩ := ih hl.2 (change.edit.apply c).value
    refine ⟨count, ?_, fun limit => ?_⟩
    · rw [after, effects, hafter, List.flatMap_cons, Change.effect_eq hl.1, ← List.append_assoc,
        Change.apply_value hl.1]
      rfl
    · -- the registers are those of `c`, so the changes that follow ask for what they ask of `c`
      have hslots : (change.edit.apply c).value.slotCount.toNat =
          max c.slotCount.toNat (change.added c).slots.toNat := by
        rw [Change.apply_value hl.1]
        exact withSlots_slotCount c _
      simp only [hcount, Change.added_congr hr, hslots, Nat.max_le, List.forall_mem_cons, and_assoc]

/-! ## Reordered runs -/

/-- The numbers of slots that a run asks for, given the effects of its changes: those that there
are, those that it requests, and enough of them for each slot that a successful change acts on. -/
def Circuit.slotDemands (c : Circuit) {n : Nat} (changes : Fin n → Change)
    (effects : Fin n → Effect) : Set Nat :=
  {m | m = c.slotCount.toNat ∨ ∃ i,
    (∃ least, changes i = .growSlots least ∧ m = least.toNat) ∨
      (effects i).result = .ok () ∧ ∃ s ∈ (changes i).slots, m = s.index.toNat + 1}

theorem Circuit.mem_upperBounds_slotDemands {n : Nat} {changes : Fin n → Change}
    (hl : ∀ i, (changes i).LeavesRegisters) {limit : Nat} :
    limit ∈ upperBounds (c.slotDemands changes fun i => (changes i).effect c) ↔
      c.slotCount.toNat ≤ limit ∧ ∀ i, ((changes i).added c).slots.toNat ≤ limit := by
  simp only [Change.slots_added_le_iff (hl _), mem_upperBounds, slotDemands, Set.mem_ofPred_eq]
  constructor
  · intro h
    exact ⟨h _ (.inl rfl), fun i => ⟨fun least hg => h _ (.inr ⟨i, .inl ⟨least, hg, rfl⟩⟩),
      fun hok s hs => h _ (.inr ⟨i, .inr ⟨hok, s, hs, rfl⟩⟩)⟩⟩
  · rintro ⟨hc, hi⟩ m (rfl | ⟨i, ⟨least, hg, rfl⟩ | ⟨hok, s, hs, rfl⟩⟩)
    · exact hc
    · exact (hi i).1 least hg
    · exact (hi i).2 hok s hs

/-- A run that leaves the registers gives a circuit the slots that are asked for, and no more. -/
theorem Circuit.isGreatest_slotCount {n : Nat} {changes : Fin n → Change}
    (hl : ∀ i, (changes i).LeavesRegisters) (c : Circuit) :
    IsGreatest (c.slotDemands changes fun i => (changes i).effect c)
      (c.after (List.ofFn changes)).slotCount.toNat := by
  obtain ⟨count, hafter, hcount⟩ := c.after_eq (List.forall_mem_ofFn_iff.2 hl)
  have hlub : IsLUB (c.slotDemands changes fun i => (changes i).effect c) count.toNat :=
    isLUB_iff_le_iff.2 fun limit => by
      rw [mem_upperBounds_slotDemands hl, hcount, List.forall_mem_ofFn_iff]
  have hne : (c.slotDemands changes fun i => (changes i).effect c).Nonempty := ⟨_, .inl rfl⟩
  rw [hafter]
  -- a least upper bound of numbers is one of them
  refine ⟨?_, hlub.1⟩
  rw [← hlub.csSup_eq hne]
  exact Nat.sSup_mem hne hlub.bddAbove

/-- The order of a run that leaves the registers matters to the commands only. -/
theorem Circuit.after_perm {changes' : List Change} (hp : changes'.Perm changes)
    (hl : ∀ change ∈ changes, change.LeavesRegisters) (c : Circuit) :
    c.after changes' = { c.after changes with commands := (c.after changes').commands } := by
  obtain ⟨count, hafter, hcount⟩ := c.after_eq hl
  obtain ⟨count', hafter', hcount'⟩ := c.after_eq fun change hm => hl change (hp.mem_iff.1 hm)
  have : count'.toNat = count.toNat := eq_of_forall_ge_iff fun limit => by
    simp only [hcount, hcount', hp.mem_iff]
  rw [hafter, hafter', UInt64.toNat_inj.1 this]

end Step

/-- Calls do not depend on their order or on what comes before them. A run of calls and requests for
slots that is reordered has the same effects in the new order, and it comes to the same registers,
bits and slots, which are as many as the run asks for. A call that succeeds also succeeds after any
changes, and appends the same command then. -/
theorem Circuit.insertions_independent (c : Circuit) :
    (∀ (n : Nat) (changes : Fin n → Change) (order : Equiv.Perm (Fin n)),
      (∀ i, (changes i).LeavesRegisters) →
        let run := c.after (List.ofFn changes)
        let reordered := c.after (List.ofFn (changes ∘ order))
        ∃ effects : Fin n → Effect,
          c.effects (List.ofFn changes) = List.ofFn effects ∧
          c.effects (List.ofFn (changes ∘ order)) = List.ofFn (effects ∘ order) ∧
          run.commands = c.commands ++ (List.ofFn effects).flatMap Effect.appended ∧
          reordered.commands =
            c.commands ++ (List.ofFn (effects ∘ order)).flatMap Effect.appended ∧
          reordered = { run with commands := reordered.commands } ∧
          IsGreatest (c.slotDemands changes effects) run.slotCount.toNat) ∧
    ∀ call : Change, call.handle?.isSome → (call.edit.apply c).result = .ok () →
      ∃ command, ∀ changes : List Change,
        (call.edit.apply (c.after changes)).result = .ok () ∧
          (call.edit.apply (c.after changes)).value.commands =
            (c.after changes).commands ++ [command] := by
  refine ⟨fun n changes order hl => ?_, fun call hcall hok => ?_⟩
  · have hrun := List.forall_mem_ofFn_iff.2 hl
    have hreordered : ∀ change ∈ List.ofFn (changes ∘ order), change.LeavesRegisters :=
      List.forall_mem_ofFn_iff.2 fun i => hl (order i)
    let effects : Fin n → Effect := fun i => (changes i).effect c
    have heffects : c.effects (List.ofFn changes) = List.ofFn effects := by
      rw [effects_eq hrun, List.map_ofFn]
      rfl
    have heffects' : c.effects (List.ofFn (changes ∘ order)) = List.ofFn (effects ∘ order) := by
      rw [effects_eq hreordered, List.map_ofFn]
      rfl
    obtain ⟨_, hafter, -⟩ := c.after_eq hrun
    obtain ⟨_, hafter', -⟩ := c.after_eq hreordered
    refine ⟨effects, heffects, heffects', ?_, ?_,
      after_perm (order.ofFn_comp_perm changes) hrun c, isGreatest_slotCount hl c⟩
    · rw [hafter, heffects]
    · rw [hafter', heffects']
  · have hl := Change.leavesRegisters_of_handle? hcall
    obtain ⟨a, ha⟩ := Change.exists_addition hok
    obtain ⟨command, hcommand⟩ := Change.addition_commands hcall ha
    refine ⟨command, fun changes => ?_⟩
    have hlater := Change.addition_mono (c.registers_mono_after changes) hl ha
    rw [Change.apply_result, Change.apply_value hl, Change.added, hlater, ← hcommand]
    exact ⟨rfl, rfl⟩

/-- A call that succeeds on `threeBits`, a request for slots, and a call on a slot that there is no
room for. -/
def mixedRun : Fin 3 → Change :=
  ![guardedCall, .growSlots 4, .addCall "init" uncheckedHandle [] [] [] (some [lastSlot]) {}]

theorem mixedRun_independent :
    let order := Equiv.swap 0 2
    (∀ i, (mixedRun i).LeavesRegisters) ∧ guardedCall.handle?.isSome ∧
      (guardedCall.edit.apply threeBits).result = .ok () ∧
        (∃ effects : Fin 3 → Effect,
          threeBits.effects (List.ofFn mixedRun) = List.ofFn effects ∧
          threeBits.effects (List.ofFn (mixedRun ∘ order)) = List.ofFn (effects ∘ order) ∧
          IsGreatest (threeBits.slotDemands mixedRun effects)
            (threeBits.after (List.ofFn mixedRun)).slotCount.toNat) ∧
        ∃ command, ∀ changes : List Change,
          (guardedCall.edit.apply (threeBits.after changes)).value.commands =
            (threeBits.after changes).commands ++ [command] := by
  intro order
  have hl : ∀ i, (mixedRun i).LeavesRegisters := by
    simp [Fin.forall_fin_succ, mixedRun, guardedCall, Change.LeavesRegisters]
  obtain ⟨effects, hrun, hreordered, -, -, -, hslots⟩ :=
    threeBits.insertions_independent.1 3 mixedRun order hl
  obtain ⟨command, hcommand⟩ := threeBits.insertions_independent.2 guardedCall rfl rfl
  exact ⟨hl, rfl, rfl, ⟨effects, hrun, hreordered, hslots⟩, command,
    fun changes => (hcommand changes).2⟩

end CallCircuit
