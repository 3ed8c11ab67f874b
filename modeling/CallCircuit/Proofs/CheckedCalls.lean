import CallCircuit.Proofs.RegisterCalls
import CallCircuit.Proofs.SignatureLimits

/-!
# Calls through checked handles

A handle that is loaded and then checked has the table of its own module, and both ways to call hold
a call against that table. So a circuit that is new, and is then changed through such handles only,
has no call that its module could not take.

* `Loaded.ownTable`: the table of a loaded handle, if it has one, is that of its module;
* `Change.Places.suits`: what both ways to call ask of a call through a checked handle;
* `Placement.Suits.provides`: what this says of the module;
* `Circuit.exists_change_of_mem_after`: commands come from the changes of a run;
* `Circuit.IsNew.commands_provided`: so the module of each command can take it.
-/

namespace CallCircuit

open Edit
open Wasm (Arity Handle Signature ValueType)

/-! ## Loaded handles -/

namespace Wasm.Handle

/-- A handle that loading has given, perhaps checked since then. -/
inductive Loaded : Handle → Prop where
  | load {bytes : Bytes} {check : Bool} {bits : UInt32} {h : Handle}
      (made : (load bytes check bits).1 = .ok h) : Loaded h
  | loadFile {path : String} {file : File} {check : Bool} {bits : UInt32} {h : Handle}
      (made : (loadFile path file check bits).1 = .ok h) : Loaded h
  | check {h : Handle} (loaded : Loaded h) : Loaded (check.apply h).value

/-- The table of the handle, if it has one, is that of its module. -/
def OwnTable (h : Handle) : Prop :=
  ∀ table, h.exports = some table → ∃ m, h.Reads m ∧ m.Exposes h.intSize.valueType table

theorem OwnTable.check {h : Handle} (ho : h.OwnTable) : (check.apply h).value.OwnTable := by
  have hk := h.checks
  generalize (Handle.check.apply h).result = result at hk
  generalize (Handle.check.apply h).value = h' at hk ⊢
  cases hk with
  | again checked => exact ho
  | failed unchecked found => exact ho
  | @read table unchecked found =>
    intro table' he
    cases he
    exact (h.verdict_reading.ok_iff table).1 found

theorem exports_of_ofBytes {bytes : Bytes} {bits : UInt32} {h : Handle}
    (made : ofBytes bytes bits = .ok h) : h.exports = none := by
  unfold ofBytes at made
  split at made
  · cases made
    rfl
  · cases made

/-- Loading gives the handle on the bytes, and may check it at once. -/
theorem load_ok {bytes : Bytes} {check : Bool} {bits : UInt32} {h : Handle}
    (made : (load bytes check bits).1 = .ok h) :
    ∃ fresh, ofBytes bytes bits = .ok fresh ∧
      (h = fresh ∨ h = (Handle.check.apply fresh).value) := by
  unfold load at made
  cases hb : ofBytes bytes bits with
  | error e =>
    rw [hb] at made
    cases made
  | ok fresh =>
    rw [hb] at made
    refine ⟨fresh, rfl, ?_⟩
    cases check with
    | false =>
      cases made
      exact .inl rfl
    | true =>
      dsimp only at made
      rw [if_pos rfl] at made
      cases hr : (Handle.check.apply fresh).result with
      | error e =>
        rw [hr] at made
        cases made
      | ok u =>
        rw [hr] at made
        cases made
        exact .inr rfl

theorem ownTable_of_load {bytes : Bytes} {check : Bool} {bits : UInt32} {h : Handle}
    (made : (load bytes check bits).1 = .ok h) : h.OwnTable := by
  obtain ⟨fresh, hb, hf⟩ := load_ok made
  have hfresh : fresh.OwnTable := fun table ht => nomatch (exports_of_ofBytes hb).symm.trans ht
  rcases hf with rfl | rfl
  · exact hfresh
  · exact hfresh.check

theorem Loaded.ownTable {h : Handle} (hl : h.Loaded) : h.OwnTable := by
  induction hl with
  | load made => exact ownTable_of_load made
  | @loadFile path file _ _ _ made =>
    cases file with
    | contents bytes => exact ownTable_of_load made
    | missing | directory | unreadable reason => cases made
  | check loaded ih => exact ih.check

end Wasm.Handle

/-! ## What a module provides -/

/-- The module of the handle exports the function that is called, its parameters are one integer for
each input and its results one for each output, there is at most one output, and the integers have
room for all variables. -/
structure Wasm.Handle.Provides (h : Handle) (call : ModuleCall) : Prop where
  uid : call.uid = h.uid
  exported : ∃ m index, h.Reads m ∧ (call.function, index) ∈ m.exports ∧
    m.Resolves index ⟨List.replicate call.inputCount.toNat h.intSize.valueType,
      List.replicate call.outputCount.toNat h.intSize.valueType⟩
  single : call.outputCount.toNat ≤ 1
  narrow : ∀ width ∈ call.inputWidths ++ call.outputWidths, width ≤ h.intSize.bits

theorem Wasm.Signature.Callable.eq_replicate {s : Signature} {int : ValueType}
    (h : s.Callable int) :
    s = ⟨List.replicate s.params.length int, List.replicate s.results.length int⟩ := by
  have hp : s.params = List.replicate s.params.length int :=
    List.eq_replicate_iff.2 ⟨rfl, fun type hm => h.2 type (List.mem_append_left _ hm)⟩
  have hr : s.results = List.replicate s.results.length int :=
    List.eq_replicate_iff.2 ⟨rfl, fun type hm => h.2 type (List.mem_append_right _ hm)⟩
  rw [← hp, ← hr]

theorem Placement.innermost_command (p : Placement) (guard : Option Guard) :
    (p.command guard).op.innermost =
      .ofWidths p.function p.uid p.inputs p.outputs (.ofNat p.slots.length) := by
  cases guard <;> rfl

/-- The call is one on the module of the handle, whose table has the function with this many inputs
and outputs, and the integers have room for all variables. -/
structure Placement.Suits (p : Placement) (h : Handle) : Prop where
  uid : p.uid = h.uid
  found : Finds h p.function p.inputs p.outputs
  narrow : ∀ width ∈ p.inputs ++ p.outputs, width ≤ h.intSize.bits

theorem Placement.Suits.provides {p : Placement} {h : Handle} (hs : p.Suits h) (hl : h.Loaded)
    (hc : h.checked = true) (guard : Option Guard) :
    h.Provides (p.command guard).op.innermost := by
  obtain ⟨table, ht⟩ := Option.isSome_iff_exists.1 hc
  obtain ⟨m, hm, exposes⟩ := hl.ownTable table ht
  obtain ⟨⟨name, index⟩, he, rfl, s, hr, callable, harity⟩ :=
    (exposes.tabulates.find?_iff.1 (hs.found table ht)).offered
  have hparams : s.params.length = p.inputs.length := congrArg Arity.params harity
  have hresults : s.results.length = p.outputs.length := congrArg Arity.results harity
  -- both counts are small, so that the words in the command are the counts
  have hin : (UInt64.ofNat p.inputs.length).toNat = p.inputs.length := by
    have : s.params.length ≤ 1000 := hm.params_le hr
    exact UInt64.toNat_ofNat_of_lt' (by rw [UInt64.size]; omega)
  have hout : (UInt64.ofNat p.outputs.length).toNat = p.outputs.length := by
    have := callable.1
    exact UInt64.toNat_ofNat_of_lt' (by rw [UInt64.size]; omega)
  rw [p.innermost_command]
  refine ⟨hs.uid, ⟨m, index, hm, he, ?_⟩, ?_, hs.narrow⟩
  · show m.Resolves index ⟨List.replicate (UInt64.ofNat p.inputs.length).toNat _,
      List.replicate (UInt64.ofNat p.outputs.length).toNat _⟩
    rw [hin, hout, ← hparams, ← hresults, ← callable.eq_replicate]
    exact hr
  · show (UInt64.ofNat p.outputs.length).toNat ≤ 1
    rw [hout, ← hresults]
    exact callable.1

/-! ## Changes that call -/

/-- The handle that a change calls through. -/
def Change.handle? : Change → Option Handle
  | .addRegister .. | .growSlots _ => none
  | .addCall _ h .. | .addRegisterCall _ h .. => some h

section Calls

variable {c c' : Circuit} {change : Change} {p : Placement} {h : Handle} {function : String}
  {inputs outputs : List Register}

/-- Both ways to call through a checked handle hold the call against its table. -/
theorem Change.Places.suits (hp : change.Places c p) (hh : change.handle? = some h)
    (hc : h.checked = true) : p.Suits h := by
  cases hp with
  | @call function _ inputs outputs bits slots options accepted =>
    cases hh
    have agrees := ((verdict_checkCall function h inputs outputs bits).ok_iff ()).1 accepted
    exact ⟨rfl, agrees.found, agrees.narrow⟩
  | @registerCall function _ inputs outputs slots options accepted =>
    cases hh
    obtain ⟨narrow, accepts⟩ := ((verdict_checkRegisters function h inputs outputs).ok_iff ()).1
      (checkRegisters_ok hc accepted)
    have hw := widthsOf_recordedWidths fun r hr =>
      Nat.lt_of_le_of_lt (narrow r hr) (by decide)
    refine ⟨rfl, ?_, ?_⟩
    · rw [← accepts_iff]
      simpa [registerPlacement, recordedWidths] using accepts
    · show ∀ width ∈ recordedWidths inputs ++ recordedWidths outputs, width ≤ h.intSize.bits
      rw [recordedWidths, recordedWidths, ← List.map_append]
      exact hw.le_bits fun r hr => by simpa [hc] using narrow r hr

/-! ## Runs -/

/-- A circuit that is new. -/
inductive Circuit.IsNew : Circuit → Prop where
  | empty : IsNew {}
  | named (name : String) : IsNew { name }
  | withBits (bitCount : UInt64) : IsNew ((pushDefaultRegister bitCount).apply {}).value

/-- The circuit after changes, each made to what the one before it has left. -/
def Circuit.after (c : Circuit) : List Change → Circuit
  | [] => c
  | change :: changes => (change.edit.apply c).value.after changes

theorem Circuit.IsNew.commands_eq_nil (h : c.IsNew) : c.commands = [] := by
  cases h with
  | empty => rfl
  | named name => rfl
  | withBits bitCount => exact commands_pushDefaultRegister bitCount

theorem Change.Makes.mem_commands (h : change.Makes c c') {command : Command}
    (hm : command ∈ c'.commands) :
    command ∈ c.commands ∨ ∃ p guard, change.Places c p ∧ command = p.command guard := by
  cases h with
  | nothing => exact .inl hm
  | register fresh => exact .inl hm
  | slots least => exact .inl hm
  | @command _ p terms places placed =>
    rcases List.mem_append.1 hm with hm | hm
    · exact .inl hm
    · exact .inr ⟨p, terms.1, places, List.mem_singleton.1 hm⟩

/-- A command in the circuit after a run was in it before or has been placed by a change of the
run. -/
theorem Circuit.exists_change_of_mem_after {changes : List Change} {command : Command}
    (hm : command ∈ (c.after changes).commands) :
    command ∈ c.commands ∨
      ∃ change ∈ changes, ∃ c' p guard, change.Places c' p ∧ command = p.command guard := by
  induction changes generalizing c with
  | nil => exact .inl hm
  | cons change changes ih =>
    rcases ih hm with hm | ⟨change', hc, places⟩
    · rcases (change.makes c).mem_commands hm with hm | ⟨p, guard, places⟩
      · exact .inl hm
      · exact .inr ⟨change, List.mem_cons_self, c, p, guard, places⟩
    · exact .inr ⟨change', List.mem_cons_of_mem _ hc, places⟩

/-- When a new circuit is changed by calls through loaded and checked handles, and by edits that do
not call, the module of one of these handles provides what each command calls. -/
theorem Circuit.IsNew.commands_provided (hc : c.IsNew) {changes : List Change}
    (hs : ∀ change ∈ changes, ∀ h, change.handle? = some h → h.Loaded ∧ h.checked = true)
    {command : Command} (hm : command ∈ (c.after changes).commands) :
    ∃ change ∈ changes, ∃ h, change.handle? = some h ∧ h.Provides command.op.innermost := by
  rcases exists_change_of_mem_after hm with hm | ⟨change, hchange, c', p, guard, places, rfl⟩
  · rw [hc.commands_eq_nil] at hm
    cases hm
  · obtain ⟨h, hh⟩ : ∃ h, change.handle? = some h := by
      cases places with
      | call accepted => exact ⟨_, rfl⟩
      | registerCall accepted => exact ⟨_, rfl⟩
    obtain ⟨loaded, checked⟩ := hs change hchange h hh
    exact ⟨change, hchange, h, hh, (places.suits hh checked).provides loaded checked guard⟩

end Calls

/-- A module with a type section, a function section and an export section. It exports `init`, and
a function `f` with a parameter and a result. -/
def smallModule : Wasm.Bytes := [
  0x00, 0x61, 0x73, 0x6d, 0x01, 0x00, 0x00, 0x00,
  0x01, 0x09, 0x02, 0x60, 0x00, 0x00, 0x60, 0x01, 0x7f, 0x01, 0x7f,
  0x03, 0x03, 0x02, 0x00, 0x01,
  0x07, 0x0c, 0x02, 0x04, 0x69, 0x6e, 0x69, 0x74, 0x00, 0x00, 0x01, 0x66, 0x00, 0x01]

/-- The handle that loading `smallModule` with a check gives. -/
def smallHandle : Handle where
  bytes := smallModule
  uid := Sha256.hexDigest smallModule
  intSize := .bits32
  exports := some { supported := [("f", ⟨1, 1⟩), ("init", ⟨0, 0⟩)] }

/-- A run that calls both functions, one on single bits and the other on no register at all. -/
def smallRun : List Change := [
  .addRegister "a" 34,
  .addCall "f" smallHandle [2] [32] (Register.bits ⟨"a", 34⟩) none {},
  .addRegisterCall "init" smallHandle [] [] none {}]

/-- The command that the first call of `smallRun` becomes. -/
def smallCommand : Command where
  op := .call (.ofWidths "f" smallHandle.uid [2] [32] 1)
  args := (Register.bits ⟨"a", 34⟩).map .bit ++ [.slot ⟨0⟩]
  group := none

theorem uncheckedHandle_loaded : uncheckedHandle.Loaded :=
  .load (show (Handle.load emptyModule false 32).1 = .ok uncheckedHandle by decide +kernel)

theorem smallHandle_loaded : smallHandle.Loaded :=
  .load (show (Handle.load smallModule true 32).1 = .ok smallHandle by decide +kernel)

theorem smallCommand_provided :
    Circuit.IsNew {} ∧ smallHandle.Loaded ∧ smallHandle.checked = true ∧
      smallCommand ∈ (Circuit.after {} smallRun).commands ∧
        ∃ change ∈ smallRun, ∃ h, change.handle? = some h ∧
          h.Provides smallCommand.op.innermost := by
  have hs : ∀ change ∈ smallRun, ∀ h, change.handle? = some h → h.Loaded ∧ h.checked = true := by
    intro change hc h hh
    simp only [smallRun, List.mem_cons, List.not_mem_nil, or_false] at hc
    obtain rfl : smallHandle = h := by rcases hc with rfl | rfl | rfl <;> cases hh <;> rfl
    exact ⟨smallHandle_loaded, rfl⟩
  have hm : smallCommand ∈ (Circuit.after {} smallRun).commands := by decide +kernel
  exact ⟨.empty, smallHandle_loaded, rfl, hm, Circuit.IsNew.empty.commands_provided hs hm⟩

end CallCircuit
