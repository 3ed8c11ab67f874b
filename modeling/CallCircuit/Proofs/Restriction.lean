import CallCircuit.Proofs.CheckedCalls

/-!
# A check restricts calls

A handle before its check and the same handle after it come to the same placement of a call. The
check of the handle only adds conditions ahead of the placement, so a call through the checked
handle does what it would have done through the unchecked one, or is refused.

* `restricts_ofCheck`: a stronger check ahead of the same change restricts the outcome;
* `checkCall_withTable`, `checkRegisterCall_withTable`: what a table of exports adds to the checks
  ahead of either call;
* `Wasm.Handle.checked_calls_restrict`: so both calls through a checked handle are restrictions of
  those through the unchecked one.
-/

namespace CallCircuit

open Edit
open Wasm (ExportTable Handle)

/-! ## Outcomes that restrict others -/

/-- The first outcome is a success exactly if the second one is and the condition holds, then with
the same circuit. It overflows only if the second one does. -/
structure Outcome.Restricts (condition : Prop) (out out' : Outcome Circuit Failure Unit) : Prop where
  ok_iff : out.result = .ok () ↔ out'.result = .ok () ∧ condition
  value : out.result = .ok () → out'.result = .ok () → out.value = out'.value
  overflow : out.result = .error .overflow → out'.result = .error .overflow

/-- A check that also asks for the condition, ahead of the same stages. -/
theorem Outcome.restricts_ofCheck {c : Circuit} {condition : Prop} {p : Placement}
    {check check' : Except Failure Unit}
    (h : check = .ok () ↔ check' = .ok () ∧ condition) (hn : check ≠ .error .overflow) :
    Restricts condition
      (ofCheck c (do check; p.verdict c) (p.change c))
      (ofCheck c (do check'; p.verdict c) (p.change c)) := by
  cases check with
  | ok u =>
    obtain ⟨rfl, hc⟩ := h.1 rfl
    exact ⟨(and_iff_left hc).symm, fun _ _ => rfl, id⟩
  | error f =>
    -- a failure ahead of the placement is neither a success nor an overflow
    refine ⟨⟨nofun, fun ⟨hr, hc⟩ => ?_⟩, nofun, fun ho => absurd ho hn⟩
    cases check' with
    | ok u => exact nomatch h.2 ⟨rfl, hc⟩
    | error f' => cases hr

/-! ## What a table of exports adds -/

section Table

variable {h : Handle} (table : ExportTable)

/-- The unchecked handle refuses no call on account of its function. -/
theorem finds_of_unchecked (hu : h.exports = none) (function : String)
    (inputs outputs : List UInt32) : Finds h function inputs outputs :=
  fun _ ht => nomatch hu.symm.trans ht

theorem checkCall_withTable (hu : h.exports = none) (function : String)
    (inputs outputs : List UInt32) (bits : List Bit) :
    checkCall function { h with exports := some table } inputs outputs bits = .ok () ↔
      checkCall function h inputs outputs bits = .ok () ∧
        table.supported.find? function = some ⟨inputs.length, outputs.length⟩ := by
  rw [(verdict_checkCall function _ inputs outputs bits).ok_iff,
    (verdict_checkCall function h inputs outputs bits).ok_iff]
  constructor
  · intro agrees
    exact ⟨⟨agrees.narrow, finds_of_unchecked hu function inputs outputs, agrees.count⟩,
      agrees.found table rfl⟩
  · intro hx
    obtain ⟨agrees, found⟩ := hx
    exact ⟨agrees.narrow, fun table' ht => Option.some.inj ht ▸ found, agrees.count⟩

/-- The unchecked handle asks of registers only that the circuit has them. -/
theorem checkRegisterCall_of_unchecked (hu : h.exports = none) (c : Circuit) (function : String)
    (inputs outputs : List Register) :
    checkRegisterCall c function h inputs outputs = checkKnown c (inputs ++ outputs) := by
  have hc : h.checked = false := by rw [Handle.checked, hu, Option.isSome_none]
  rw [checkRegisterCall_eq, hc, if_neg Bool.false_ne_true, ok_bind]

theorem checkRegisterCall_ne_overflow (c : Circuit) (function : String) (h : Handle)
    (inputs outputs : List Register) :
    checkRegisterCall c function h inputs outputs ≠ .error .overflow := by
  have hk : checkKnown c (inputs ++ outputs) ≠ .error .overflow := fun h => by
    rcases checkKnown_error h with hf | ⟨r, hf⟩ <;> cases hf
  rw [checkRegisterCall_eq]
  split
  · cases checkRegisters function h inputs outputs with
    | ok u => exact hk
    | error e => exact nofun
  · exact hk

theorem checkRegisterCall_withTable (hu : h.exports = none) (c : Circuit) (function : String)
    (inputs outputs : List Register) :
    checkRegisterCall c function { h with exports := some table } inputs outputs = .ok () ↔
      checkRegisterCall c function h inputs outputs = .ok () ∧
        table.supported.find? function = some ⟨inputs.length, outputs.length⟩ ∧
          ∀ r ∈ inputs ++ outputs, r.size.toNat ≤ 32 := by
  have hc : ({ h with exports := some table } : Handle).checked = true := rfl
  rw [checkRegisterCall_eq, hc, if_pos rfl, bind_eq_ok_iff, checkRegisterCall_of_unchecked hu]
  simp only [lift_eq_ok_iff, (verdict_checkRegisters _ _ _ _).ok_iff, Handle.accepts, beq_iff_eq,
    exists_const]
  constructor
  · rintro ⟨⟨narrow, found⟩, known⟩
    exact ⟨known, found, narrow⟩
  · rintro ⟨known, found, narrow⟩
    exact ⟨⟨narrow, found⟩, known⟩

end Table

/-! ## Calls through a handle before and after its check -/

/-- A check that succeeds on an unchecked handle gives it a table, and changes nothing else. -/
theorem Wasm.Handle.check_ok {h : Handle} (hu : h.exports = none)
    (succeeds : (check.apply h).result = .ok ()) :
    ∃ table, (check.apply h).value = { h with exports := some table } := by
  have hk := h.checks
  rw [succeeds] at hk
  generalize (check.apply h).value = h' at hk ⊢
  cases hk with
  | again hc =>
    rw [checked, hu] at hc
    cases hc
  | read unchecked found => exact ⟨_, rfl⟩

/-- When the check of a fresh handle succeeds, a call through the checked handle succeeds on any
circuit exactly if the same call through the fresh one does, the function has this arity in the
table of the module and, for a call on registers, none of them is wider than 32 bits. Both then give
the same circuit, and a call that overflows through the checked handle overflows through the fresh
one. -/
theorem Wasm.Handle.checked_calls_restrict {bytes : Bytes} {bits : UInt32} {fresh : Handle}
    (made : ofBytes bytes bits = .ok fresh) (succeeds : (check.apply fresh).result = .ok ()) :
    let checked := (check.apply fresh).value
    ∃ functions, checked.functions = .ok functions ∧ ∀ c : Circuit,
      (∀ function inputs outputs bits slots options,
        let call (h : Handle) := (addCall function h inputs outputs bits slots options).apply c
        Outcome.Restricts (functions.find? function = some ⟨inputs.length, outputs.length⟩)
          (call checked) (call fresh)) ∧
      ∀ function inputs outputs slots options,
        let call (h : Handle) := (addRegisterCall function h inputs outputs slots options).apply c
        Outcome.Restricts
          (functions.find? function = some ⟨inputs.length, outputs.length⟩ ∧
            ∀ r ∈ inputs ++ outputs, r.size.toNat ≤ 32)
          (call checked) (call fresh) := by
  intro checked
  have hu := exports_of_ofBytes made
  obtain ⟨table, ht⟩ : ∃ table, checked = { fresh with exports := some table } :=
    check_ok hu succeeds
  rw [ht]
  refine ⟨table.supported, rfl, fun c => ⟨fun function inputs outputs bits slots options => ?_,
    fun function inputs outputs slots options => ?_⟩⟩
  · intro call
    simp only [call, (addCall_yields function _ inputs outputs bits slots options c).apply]
    refine Outcome.restricts_ofCheck ?_ fun h => nomatch exists_refused_of_lift h
    simp only [lift_eq_ok_iff]
    exact checkCall_withTable table hu function inputs outputs bits
  · intro call
    simp only [call, (addRegisterCall_yields function _ inputs outputs slots options c).apply]
    -- the warning of the fresh handle is on the trail only
    have hr := Outcome.restricts_ofCheck (c := c)
      (p := registerPlacement function fresh inputs outputs slots options)
      (checkRegisterCall_withTable table hu c function inputs outputs)
      (checkRegisterCall_ne_overflow c function _ inputs outputs)
    exact ⟨hr.ok_iff, hr.value, hr.overflow⟩

/-- The handle that loading `smallModule` without a check gives. -/
def freshHandle : Handle := { smallHandle with exports := none }

/-- A call of `f` with two inputs and no output, which its module does not export. -/
def misfit (h : Handle) : Edit Unit := addCall "f" h [1, 1] [] (Register.bits ⟨"c", 2⟩) none {}

theorem misfit_restricted :
    let checked := (Handle.check.apply freshHandle).value
    Handle.ofBytes smallModule 32 = .ok freshHandle ∧
      (Handle.check.apply freshHandle).result = .ok () ∧
      ∃ functions, checked.functions = .ok functions ∧
        Outcome.Restricts (functions.find? "f" = some ⟨2, 0⟩)
          ((misfit checked).apply threeBits) ((misfit freshHandle).apply threeBits) ∧
        ((misfit freshHandle).apply threeBits).result = .ok () ∧
        ((misfit checked).apply threeBits).result ≠ .ok () := by
  intro checked
  have made : Handle.ofBytes smallModule 32 = .ok freshHandle := by decide +kernel
  have succeeds : (Handle.check.apply freshHandle).result = .ok () := by decide +kernel
  obtain ⟨functions, hf, restricts⟩ := Handle.checked_calls_restrict made succeeds
  exact ⟨made, succeeds, functions, hf,
    (restricts threeBits).1 "f" [1, 1] [] (Register.bits ⟨"c", 2⟩) none {},
    by decide +kernel, by decide +kernel⟩

end CallCircuit
