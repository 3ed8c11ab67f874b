import CallCircuit.Proofs.Calls

/-!
# Calls on whole registers

A call on registers of the circuit that are narrow enough comes to what the call on their bits comes
to, although the two make different checks. A checked module refuses the first register that is too
wide, and any module the first register that the circuit does not have at this size.

* `verdict_checkRegisterCall`: the stages ahead of placing a call on registers;
* `checkRegisterCall_eq_checkCall`: on narrow registers of the circuit, these are the stages ahead
  of placing the call on their bits;
* `Reachable.addRegisterCall_agrees`: so both calls agree, and where the call on registers is
  refused.
-/

namespace CallCircuit

open Edit
open Wasm (Handle)

section Stages

variable {c : Circuit} {function : String} {h : Handle} {inputs outputs registers : List Register}
  {widthsIn widthsOut widths : List UInt32}

/-- A checked module takes the registers, and has the function with this many inputs and outputs.
An unchecked module takes everything. -/
def ModuleTakes (h : Handle) (function : String) (inputs outputs : List Register) : Prop :=
  ∀ table, h.exports = some table → (∀ r ∈ inputs ++ outputs, r.size.toNat ≤ 32) ∧
    table.supported.find? function = some ⟨inputs.length, outputs.length⟩

/-- The register is wider than a checked module takes. -/
def Oversized (_ : List Register) (r : Register) : Prop := 32 < r.size.toNat

/-- The circuit does not have this register at this size. -/
def Absent (c : Circuit) (_ : List Register) (r : Register) : Prop := r ∉ c.registers

theorem scan_checkKnown (ht : c.TableAgrees) (registers : List Register) :
    Verdict (checkKnown c registers) (fun _ => Spotless (Absent c) registers ∧ True) fun f =>
      Stops (Absent c) (fun r f => .refused (.unknownRegister r) = f) registers f ∨
        Spotless (Absent c) registers ∧ False := by
  induction registers with
  | nil => exact (Verdict.ok ()).congr (fun _ => by simp) fun f => by simp [Stops]
  | cons r registers ih =>
    have hr : c.register? r.name = some r ↔ r ∈ c.registers := by
      rw [Circuit.register?_eq_some_iff ht.names, and_iff_left rfl]
    by_cases hm : r ∈ c.registers
    · -- a register of the circuit has room for its bits
      rw [checkKnown, if_pos (hr.2 hm), Register.checkRoom_of_fits (ht.sizes r hm), ok_bind]
      exact .scan_step (fun h => h hm) ih
    · rw [checkKnown, if_neg fun h => hm (hr.1 h)]
      exact .scan_stop hm (.error _)

theorem verdict_checkKnown (ht : c.TableAgrees) (registers : List Register) :
    Verdict (checkKnown c registers) (fun _ => ∀ r ∈ registers, r ∈ c.registers)
      (Stops (Absent c) (fun r f => .refused (.unknownRegister r) = f) registers) := by
  refine (scan_checkKnown ht registers).congr (fun _ => ?_) fun f => ?_
  · unfold Absent
    rw [and_true, spotless_iff_forall]
    simp only [Classical.not_not]
  · rw [and_false, or_false]

theorem verdict_accepts (function : String) (h : Handle) (arity : Wasm.Arity) :
    Verdict (if h.accepts function arity then .ok ()
        else .error (CircuitError.functionNotFound function h.uid))
      (fun _ : Unit => h.accepts function arity = true)
      fun e => h.accepts function arity = false ∧ .functionNotFound function h.uid = e := by
  cases h.accepts function arity with
  | true => exact (Verdict.ok ()).congr (fun _ => by simp) fun e => by simp
  | false => exact (Verdict.error _).congr (fun _ => by simp) fun e => by simp

theorem verdict_checkRegisters (function : String) (h : Handle) (inputs outputs : List Register) :
    Verdict (checkRegisters function h inputs outputs)
      (fun _ => (∀ r ∈ inputs ++ outputs, r.size.toNat ≤ 32) ∧
        h.accepts function ⟨inputs.length, outputs.length⟩ = true)
      fun e => Stops Oversized (fun r e => .registerTooWide r = e) (inputs ++ outputs) e ∨
        (∀ r ∈ inputs ++ outputs, r.size.toNat ≤ 32) ∧
          h.accepts function ⟨inputs.length, outputs.length⟩ = false ∧
            .functionNotFound function h.uid = e := by
  have hv := Verdict.find (x := checkRegisters function h inputs outputs) (l := inputs ++ outputs)
    (fun r => 32 < r.size.toNat) CircuitError.registerTooWide
    (fun r => decide_eq_true_iff.trans UInt64.lt_iff_toNat_lt)
    (fun r hr => by rw [checkRegisters, hr]) fun hr => by
      rw [checkRegisters, hr]
      exact verdict_accepts function h ⟨inputs.length, outputs.length⟩
  simp only [Nat.not_lt] at hv
  exact hv

theorem moduleTakes_of_unchecked (hc : h.checked = false) :
    ModuleTakes h function inputs outputs := by
  intro table ht
  rw [Handle.checked, ht] at hc
  cases hc

theorem moduleTakes_iff (hc : h.checked = true) :
    ModuleTakes h function inputs outputs ↔ (∀ r ∈ inputs ++ outputs, r.size.toNat ≤ 32) ∧
      h.accepts function ⟨inputs.length, outputs.length⟩ = true := by
  obtain ⟨table, ht⟩ := Option.isSome_iff_exists.1 hc
  simp [ModuleTakes, Handle.accepts, ht]

theorem checkRegisterCall_eq (c : Circuit) (function : String) (h : Handle)
    (inputs outputs : List Register) :
    checkRegisterCall c function h inputs outputs =
      (if h.checked then Failure.lift (checkRegisters function h inputs outputs) else .ok ()) >>=
        fun _ => checkKnown c (inputs ++ outputs) := by
  unfold checkRegisterCall
  cases h.checked <;> rfl

theorem verdict_checkRegisterCall (ht : c.TableAgrees) (function : String) (h : Handle)
    (inputs outputs : List Register) :
    Verdict (checkRegisterCall c function h inputs outputs)
      (fun _ => ModuleTakes h function inputs outputs ∧ ∀ r ∈ inputs ++ outputs, r ∈ c.registers)
      fun f =>
        (h.checked = true ∧ ∃ e,
            (Stops Oversized (fun r e => .registerTooWide r = e) (inputs ++ outputs) e ∨
              (∀ r ∈ inputs ++ outputs, r.size.toNat ≤ 32) ∧
                h.accepts function ⟨inputs.length, outputs.length⟩ = false ∧
                  .functionNotFound function h.uid = e) ∧ .refused e = f) ∨
          ModuleTakes h function inputs outputs ∧
            Stops (Absent c) (fun r f => .refused (.unknownRegister r) = f)
              (inputs ++ outputs) f := by
  have hk := verdict_checkKnown ht (inputs ++ outputs)
  unfold checkRegisterCall
  cases hc : h.checked with
  | true =>
    simp only [↓reduceIte, moduleTakes_iff hc]
    exact ((verdict_checkRegisters function h inputs outputs).lift.bind fun _ _ => hk).congr
      (fun _ => by simp only [exists_const]) fun f => by simp only [exists_const, true_and]
  | false =>
    simp only [Bool.false_eq_true, ↓reduceIte, ok_bind]
    exact hk.congr (fun _ => (and_iff_right (moduleTakes_of_unchecked hc)).symm)
      fun f => by simp only [false_and, false_or, moduleTakes_of_unchecked hc, true_and]

/-! ## Registers and their bits -/

/-- The registers are as narrow as both ways of calling through the handle take them. -/
def Narrow (h : Handle) (registers : List Register) : Prop :=
  ∀ r ∈ registers, r.size.toNat ≤ if h.checked then 32 else h.intSize.bits.toNat

theorem WidthsOf.le_bits (hw : WidthsOf registers widths) (hs : Narrow h registers) :
    ∀ width ∈ widths, width ≤ h.intSize.bits := by
  intro width hm
  have hm : width.toNat ∈ widths.map UInt32.toNat := List.mem_map_of_mem hm
  rw [hw, List.mem_map] at hm
  obtain ⟨r, hr, he⟩ := hm
  have h32 : 32 ≤ h.intSize.bits.toNat := by cases h.intSize <;> decide
  have := hs r hr
  rw [UInt32.le_iff_toNat_le, ← he]
  split at this
  · exact Nat.le_trans this h32
  · exact this

theorem checkRegisterCall_eq_checkCall (ht : c.TableAgrees) (hin : WidthsOf inputs widthsIn)
    (hout : WidthsOf outputs widthsOut) (hknown : ∀ r ∈ inputs ++ outputs, r ∈ c.registers)
    (hs : Narrow h (inputs ++ outputs)) :
    checkRegisterCall c function h inputs outputs =
      Failure.lift
        (checkCall function h widthsIn widthsOut ((inputs ++ outputs).flatMap Register.bits)) := by
  have hw := hin.append hout
  have hwidths : checkWidths widthsIn widthsOut h.intSize.bits = .ok () :=
    ((verdict_checkWidths _ _ _).ok_iff ()).2 (hw.le_bits hs)
  have hk : checkKnown c (inputs ++ outputs) = .ok () :=
    ((verdict_checkKnown ht _).ok_iff ()).2 hknown
  -- what is left on both sides is the look for the function
  rw [checkRegisterCall, checkCall, hwidths, hk, hin.length, hout.length, hw.totalWidth_eq]
  cases hc : h.checked with
  | true =>
    have hfind : (inputs ++ outputs).find? (maxRegisterSize < ·.size) = none := by
      rw [List.find?_eq_none]
      intro r hr
      have := hs r hr
      rw [hc, if_pos rfl] at this
      rw [decide_eq_true_iff, UInt64.lt_iff_toNat_lt]
      exact Nat.not_lt.2 this
    rw [checkRegisters, hfind]
    cases h.accepts function ⟨inputs.length, outputs.length⟩ <;> simp
  | false =>
    have hexports : h.exports = none :=
      Option.isNone_iff_eq_none.1 (Option.isSome_eq_false_iff.1 hc)
    simp [Handle.accepts, hexports]

end Stages

/-! ## Both ways to call -/

section Agreement

variable {c : Circuit} {allowed : Change → Prop}

theorem registerPlacement_eq {inputs outputs : List Register} {widthsIn widthsOut : List UInt32}
    (hin : WidthsOf inputs widthsIn) (hout : WidthsOf outputs widthsOut) (function : String)
    (h : Handle) (slots : Option (List Slot)) (options : CallOptions) :
    registerPlacement function h inputs outputs slots options =
      callPlacement function h widthsIn widthsOut ((inputs ++ outputs).flatMap Register.bits) slots
        options := by
  rw [registerPlacement, hin.recordedWidths_eq, hout.recordedWidths_eq]
  rfl

theorem addRegisterCall_apply (function : String) (h : Handle) (inputs outputs : List Register)
    (slots : Option (List Slot)) (options : CallOptions) {f : Failure}
    (hf : checkRegisterCall c function h inputs outputs = .error f) :
    (addRegisterCall function h inputs outputs slots options).apply c =
      ⟨.error f, c, warning function h⟩ := by
  rw [(addRegisterCall_yields function h inputs outputs slots options c).apply, hf]
  simp [Outcome.noted]

/-- On narrow registers of a reachable circuit, the call on the registers and the call on their bits
come to the same result and the same circuit. A checked module refuses the first register that is
wider than 32 bits. When the module takes the registers, the first that the circuit does not have at
its size is refused, whatever the call on the bits comes to. -/
theorem Reachable.addRegisterCall_agrees (hc : Reachable allowed c) (function : String) (h : Handle)
    (inputs outputs : List Register) (slots : Option (List Slot)) (options : CallOptions) :
    let out := (addRegisterCall function h inputs outputs slots options).apply c
    (∀ widthsIn widthsOut, WidthsOf inputs widthsIn → WidthsOf outputs widthsOut →
      (∀ r ∈ inputs ++ outputs, r ∈ c.registers) → Narrow h (inputs ++ outputs) →
      let onBits := (addCall function h widthsIn widthsOut
        ((inputs ++ outputs).flatMap Register.bits) slots options).apply c
      out.result = onBits.result ∧ out.value = onBits.value) ∧
    (∀ before r, h.checked = true → FirstOffender Oversized (inputs ++ outputs) before r →
      out.result = .error (.refused (.registerTooWide r)) ∧ out.value = c) ∧
    ∀ before r, ModuleTakes h function inputs outputs →
      FirstOffender (Absent c) (inputs ++ outputs) before r →
      out.result = .error (.refused (.unknownRegister r)) ∧ out.value = c := by
  have ht := hc.tableAgrees
  have hv := verdict_checkRegisterCall ht function h inputs outputs
  refine ⟨fun widthsIn widthsOut hin hout hknown hs => ?_, fun before r hchecked hr => ?_,
    fun before r htakes hr => ?_⟩
  · rw [(addRegisterCall_yields function h inputs outputs slots options c).apply,
      (addCall_yields function h widthsIn widthsOut _ slots options c).apply,
      checkRegisterCall_eq_checkCall ht hin hout hknown hs,
      registerPlacement_eq hin hout function h slots options]
    exact ⟨rfl, rfl⟩
  · have he := (hv.error_iff (.refused (.registerTooWide r))).2
      (.inl ⟨hchecked, _, .inl ⟨before, r, hr, rfl⟩, rfl⟩)
    rw [addRegisterCall_apply function h inputs outputs slots options he]
    exact ⟨rfl, rfl⟩
  · have he := (hv.error_iff (.refused (.unknownRegister r))).2 (.inr ⟨htakes, before, r, hr, rfl⟩)
    rw [addRegisterCall_apply function h inputs outputs slots options he]
    exact ⟨rfl, rfl⟩

end Agreement

/-- A handle on a checked module with a function of one parameter. -/
def checkedHandle : Handle :=
  { uncheckedHandle with exports := some { supported := [("f", ⟨1, 0⟩)] } }

/-- The register of `threeBits`, one that is too wide, and one with its name and too few bits. -/
def wholeRegister : Register := ⟨defaultRegister, 3⟩
@[inherit_doc wholeRegister] def wideRegister : Register := ⟨defaultRegister, 33⟩
@[inherit_doc wholeRegister] def shortRegister : Register := ⟨defaultRegister, 2⟩

theorem threeBits_addRegisterCall :
    let call (h : Handle) (r : Register) := (addRegisterCall "f" h [r] [] none {}).apply threeBits
    let callOnBits (h : Handle) (r : Register) :=
      (addCall "f" h [r.size.toUInt32] [] r.bits none {}).apply threeBits
    Reachable Change.Proper threeBits ∧
      ((call checkedHandle wholeRegister).result = (callOnBits checkedHandle wholeRegister).result ∧
        (call checkedHandle wholeRegister).value = (callOnBits checkedHandle wholeRegister).value) ∧
      (call checkedHandle wideRegister).result = .error (.refused (.registerTooWide wideRegister)) ∧
      (call uncheckedHandle shortRegister).result =
        .error (.refused (.unknownRegister shortRegister)) ∧
      (callOnBits uncheckedHandle shortRegister).result = .ok () := by
  intro call callOnBits
  have hr : Reachable Change.Proper threeBits := .source (.withBits 3)
  have agrees (h : Handle) (r : Register) := hr.addRegisterCall_agrees "f" h [r] [] none {}
  have hwide : FirstOffender Oversized ([wideRegister] ++ []) [] wideRegister :=
    ⟨spotless_nil, show 32 < wideRegister.size.toNat by decide, [], rfl⟩
  have hshort : FirstOffender (Absent threeBits) ([shortRegister] ++ []) [] shortRegister :=
    ⟨spotless_nil, show shortRegister ∉ threeBits.registers by decide, [], rfl⟩
  have hnarrow : Narrow checkedHandle ([wholeRegister] ++ []) := by
    unfold Narrow
    decide
  refine ⟨hr, ?_, ?_, ?_, rfl⟩
  · exact (agrees checkedHandle wholeRegister).1 [3] [] rfl rfl (by decide) hnarrow
  · exact ((agrees checkedHandle wideRegister).2.1 [] wideRegister rfl hwide).1
  · exact ((agrees uncheckedHandle shortRegister).2.2 [] shortRegister
      (moduleTakes_of_unchecked rfl) hshort).1

end CallCircuit
