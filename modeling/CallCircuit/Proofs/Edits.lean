import CallCircuit.Circuit.Call
import CallCircuit.Proofs.Verdict

/-!
# What edits do

`Update.Yields` says what an update makes of a value, whatever is on the trail before it. Each edit
of a circuit has one lemma that says what it yields: a pure check comes first, a check that fails
leaves the circuit as it was, and one that succeeds is followed by a change that cannot fail.

* `Register.Fits`, `Register.verdict_checkRoom`: the registers whose bits there is room for;
* `addRegister_yields`, `growSlots_yields`: the edits of the register table and the state register;
* `place_yields`: placing a call, after `Placement.verdict`;
* `addCall_yields`, `addRegisterCall_yields`: both ways to add a call.
-/

namespace CallCircuit

open Wasm (Handle)

namespace Update

variable {σ ε α β : Type} {u : Update σ ε α} {f : α → Update σ ε β} {v w : σ} {a : α} {e : ε}
  {t : List Entry}

/-- Carries an update on from a value with its trail. -/
def resume (u : Update σ ε α) (d : Draft σ) : Except ε α × Draft σ :=
  Id.run ((ExceptT.run u).run d)

@[simp] theorem resume_pure (a : α) (d : Draft σ) :
    resume (pure a : Update σ ε α) d = (.ok a, d) := rfl

@[simp] theorem resume_throw (e : ε) (d : Draft σ) :
    resume (throw e : Update σ ε α) d = (.error e, d) := rfl

@[simp] theorem resume_current (d : Draft σ) :
    resume (current : Update σ ε σ) d = (.ok d.value, d) := rfl

@[simp] theorem resume_put (v : σ) (d : Draft σ) :
    resume (put v : Update σ ε Unit) d = (.ok (), ⟨v, d.trail⟩) := rfl

@[simp] theorem resume_note (entry : Entry) (d : Draft σ) :
    resume (note entry : Update σ ε Unit) d = (.ok (), ⟨d.value, d.trail ++ [entry]⟩) := rfl

@[simp] theorem resume_bind (u : Update σ ε α) (f : α → Update σ ε β) (d : Draft σ) :
    resume (u >>= f) d =
      match resume u d with
      | (.ok a, d) => resume (f a) d
      | (.error e, d) => (.error e, d) := by
  show ExceptT.bindCont f (resume u d).1 (resume u d).2 = _
  rcases resume u d with ⟨_ | _, _⟩ <;> rfl

@[simp] theorem resume_map (g : α → β) (u : Update σ ε α) (d : Draft σ) :
    resume (g <$> u) d = ((resume u d).1.map g, (resume u d).2) := by
  rw [map_eq_pure_bind, resume_bind]
  rcases resume u d with ⟨_ | _, _⟩ <;> rfl

@[simp] theorem resume_discard (u : Update σ ε α) (d : Draft σ) :
    resume (discard u) d = ((resume u d).1.map fun _ => (), (resume u d).2) := resume_map _ u d

/-- From this value the update comes to this outcome, whatever is on the trail before. -/
def Yields (u : Update σ ε α) (value : σ) (out : Outcome σ ε α) : Prop :=
  ∀ trail, u.resume ⟨value, trail⟩ = (out.result, ⟨out.value, trail ++ out.trail⟩)

namespace Yields

theorem apply {out : Outcome σ ε α} (h : u.Yields v out) : u.apply v = out := by
  have := h []
  rw [List.nil_append] at this
  show (⟨(u.resume ⟨v, []⟩).1, (u.resume ⟨v, []⟩).2.value, (u.resume ⟨v, []⟩).2.trail⟩ :
    Outcome σ ε α) = out
  rw [this]

theorem bind {out : Outcome σ ε β} (hu : u.Yields v ⟨.ok a, w, t⟩) (hf : (f a).Yields w out) :
    (u >>= f).Yields v ⟨out.result, out.value, t ++ out.trail⟩ := by
  intro trail
  rw [resume_bind, hu trail]
  simp only [hf (trail ++ t), List.append_assoc]

theorem bind_error (hu : u.Yields v ⟨.error e, w, t⟩) :
    (u >>= f).Yields v ⟨.error e, w, t⟩ := by
  intro trail
  rw [resume_bind, hu trail]

theorem discard {out : Outcome σ ε α} (h : u.Yields v out) :
    (discard u).Yields v ⟨out.result.map fun _ => (), out.value, out.trail⟩ := by
  intro trail
  rw [resume_discard, h trail]

theorem note (entry : Entry) (v : σ) :
    (note entry : Update σ ε Unit).Yields v ⟨.ok (), v, [entry]⟩ := fun _ => rfl

end Yields

end Update

namespace Outcome

variable {σ ε α β : Type}

/-- A check of a value and then a change that cannot fail. A check that fails leaves the value. -/
def ofCheck (value : σ) (check : Except ε α) (change : α → Outcome σ ε β) : Outcome σ ε β :=
  match check with
  | .ok a => change a
  | .error e => ⟨.error e, value, []⟩

@[simp] theorem ofCheck_ok (value : σ) (a : α) (change : α → Outcome σ ε β) :
    ofCheck value (.ok a) change = change a := rfl

@[simp] theorem ofCheck_error (value : σ) (e : ε) (change : α → Outcome σ ε β) :
    ofCheck value (.error e) change = ⟨.error e, value, []⟩ := rfl

theorem ofCheck_bind (value : σ) (check : Except ε α) (next : α → Except ε β) {γ : Type}
    (change : β → Outcome σ ε γ) :
    ofCheck value (check >>= next) change =
      ofCheck value check fun a => ofCheck value (next a) change := by
  cases check <;> rfl

theorem ofCheck_iff {value v : σ} {check : Except ε α} {change : α → Outcome σ ε β}
    {result : Except ε β} :
    (ofCheck value check change).result = result ∧ (ofCheck value check change).value = v ↔
      (∃ e, check = .error e ∧ result = .error e ∧ v = value) ∨
        ∃ a, check = .ok a ∧ (change a).result = result ∧ (change a).value = v := by
  cases check with
  | ok a => simp
  | error e => simp [eq_comm]

/-- The outcome with entries ahead of its trail. -/
def noted (entries : List Entry) (out : Outcome σ ε α) : Outcome σ ε α :=
  { out with trail := entries ++ out.trail }

@[simp] theorem noted_nil (out : Outcome σ ε α) : noted [] out = out := rfl

end Outcome

/-! ## Room for bits -/

namespace Register

variable {r : Register}

/-- There is room for the bits of the register, which are fewer than 2⁵⁸ then. -/
def Fits (r : Register) : Prop := hasRoom r.size.toNat bitBytes = true

instance : Decidable r.Fits := inferInstanceAs (Decidable (_ = true))

theorem checkRoom_of_fits (h : r.Fits) : r.checkRoom = .ok () := if_pos h

theorem checkRoom_of_not_fits (h : ¬ r.Fits) : r.checkRoom = .error .capacity := if_neg h

theorem verdict_checkRoom (r : Register) :
    Verdict r.checkRoom (fun _ => r.Fits) fun f => ¬ r.Fits ∧ .capacity = f := by
  by_cases h : r.Fits
  · rw [checkRoom_of_fits h]
    exact (Verdict.ok ()).congr (fun _ => by simp [h]) fun f => by simp [h]
  · rw [checkRoom_of_not_fits h]
    exact (Verdict.error _).congr (fun _ => by simp [h]) fun f => by simp [h]

end Register

/-! ## Registers, slots and commands -/

/-- The circuit with a state register of at least this many slots. -/
def Circuit.withSlots (c : Circuit) (least : UInt64) : Circuit :=
  { c with slotCount := if c.slotCount < least then least else c.slotCount }

/-- What the trail has of the growth of the state register. -/
def Circuit.growth (c : Circuit) (least : UInt64) : List Entry :=
  if c.slotCount < least then [.growingStates c.slotCount least] else []

namespace Edit

open Update

variable {α : Type}

@[simp] theorem resume_checked (check : Except Failure α) (d : Draft Circuit) :
    resume (checked check) d = (check, d) := by cases check <;> rfl

@[simp] theorem resume_refuse (e : CircuitError) (d : Draft Circuit) :
    resume (refuse e : Edit α) d = (.error (.refused e), d) := rfl

/-- An edit after a check. -/
theorem checked_bind_yields {β : Type} {check : Except Failure α} {f : α → Edit β} {c : Circuit}
    {change : α → Outcome Circuit Failure β} (h : ∀ a, (f a).Yields c (change a)) :
    (checked check >>= f).Yields c (.ofCheck c check change) := by
  intro trail
  cases check with
  | ok a => simpa using h a trail
  | error e => simp

theorem pushRegister_yields (r : Register) (c : Circuit) :
    (pushRegister r).Yields c
      (if r.Fits then ⟨.ok (), c.withRegister r, [.addingRegister r]⟩
      else ⟨.error .capacity, c, [.addingRegister r]⟩) := by
  intro trail
  by_cases h : r.Fits
  · simp [pushRegister, h, r.checkRoom_of_fits h]
  · simp [pushRegister, h, r.checkRoom_of_not_fits h]

theorem pushCommand_yields (command : Command) (c : Circuit) :
    (pushCommand command).Yields c ⟨.ok (), c.withCommand command, [.addingCommand command]⟩ := by
  intro trail
  simp [pushCommand]

theorem addRegister_yields (name : String) (size : UInt64) (c : Circuit) :
    (addRegister name size).Yields c
      (if (c.register? name).isSome then ⟨.error (.refused (.registerExists name)), c, []⟩
      else if Register.Fits ⟨name, size⟩ then
        ⟨.ok ⟨name, size⟩, c.withRegister ⟨name, size⟩, [.addingRegister ⟨name, size⟩]⟩
      else ⟨.error .capacity, c, [.addingRegister ⟨name, size⟩]⟩) := by
  intro trail
  have hp := pushRegister_yields ⟨name, size⟩ c trail
  by_cases h : (c.register? name).isSome
  · simp [addRegister, h]
  · by_cases hf : Register.Fits ⟨name, size⟩
    · simp [addRegister, h, hf, hp, Except.map]
    · simp [addRegister, h, hf, hp, Except.map]

theorem growSlots_yields (least : UInt64) (c : Circuit) :
    (growSlots least).Yields c
      ⟨.ok (c.withSlots least).slotCount, c.withSlots least, c.growth least⟩ := by
  intro trail
  by_cases h : c.slotCount < least
  · simp [growSlots, h, Circuit.withSlots, Circuit.growth, Except.map]
  · simp [growSlots, h, Circuit.withSlots, Circuit.growth]

theorem pushDefaultRegister_yields (bitCount : UInt64) (c : Circuit) :
    (pushDefaultRegister bitCount).Yields c
      (if bitCount = 0 then ⟨.ok (), c, []⟩
      else if Register.Fits ⟨defaultRegister, bitCount⟩ then
        ⟨.ok (), c.withRegister ⟨defaultRegister, bitCount⟩,
          [.addingRegister ⟨defaultRegister, bitCount⟩]⟩
      else ⟨.error .capacity, c, [.addingRegister ⟨defaultRegister, bitCount⟩]⟩) := by
  unfold pushDefaultRegister
  by_cases h : bitCount = 0
  · simp only [if_pos h]
    exact fun trail => by simp
  · simp only [if_neg h]
    exact pushRegister_yields ⟨defaultRegister, bitCount⟩ c

/-! ## Calls -/

/-- How many slots a call on these slots needs. -/
def slotsNeeded (slots : List Slot) : Except Failure UInt64 :=
  match maxSlot? slots with
  | none => .ok 0
  | some last => Failure.ofSum (checkedAdd last 1)

theorem cover_yields (slots : List Slot) (c : Circuit) :
    (cover slots).Yields c
      (.ofCheck c (slotsNeeded slots) fun n => ⟨.ok (), c.withSlots n, c.growth n⟩) := by
  unfold cover slotsNeeded
  cases maxSlot? slots with
  | none =>
    intro trail
    have : ¬ c.slotCount < 0 := UInt64.not_lt_zero
    simp [Circuit.withSlots, Circuit.growth, this]
  | some last =>
    refine checked_bind_yields fun n trail => ?_
    rw [resume_discard, growSlots_yields n c trail]
    rfl

end Edit

namespace Placement

/-- The checks that a placement makes, with the guard of the call and the number of slots it
needs. -/
def verdict (p : Placement) (c : Circuit) : Except Failure (Option Guard × UInt64) := do
  let guard ← p.options.guard
  Failure.lift (c.checkUnits (p.allBits guard) p.slots)
  let needed ← Edit.slotsNeeded p.slots
  return (guard, needed)

/-- The change that a placement makes. -/
def change (p : Placement) (c : Circuit) (terms : Option Guard × UInt64) :
    Outcome Circuit Failure Unit where
  result := .ok ()
  value := (c.withSlots terms.2).withCommand (p.command terms.1)
  trail := c.growth terms.2 ++ [.addingCommand (p.command terms.1)]

end Placement

namespace Edit

open Update

theorem place_yields (p : Placement) (c : Circuit) :
    (place p).Yields c (.ofCheck c (p.verdict c) (p.change c)) := by
  rw [Placement.verdict, Outcome.ofCheck_bind]
  refine checked_bind_yields fun guard trail => ?_
  rw [Outcome.ofCheck_bind, resume_bind, resume_current]
  refine checked_bind_yields (fun _ => ?_) trail
  rw [Outcome.ofCheck_bind]
  intro trail
  rw [resume_bind, cover_yields p.slots c trail]
  cases slotsNeeded p.slots with
  | error e => rfl
  | ok n => simp [Placement.change, pushCommand_yields _ _ _]

/-- The checks that adding a call on single bits makes before it is placed. -/
def checkCall (function : String) (h : Handle) (inputs outputs : List UInt32) (bits : List Bit) :
    Except CircuitError Unit := do
  checkWidths inputs outputs h.intSize.bits
  if !h.accepts function ⟨inputs.length, outputs.length⟩ then
    .error (.functionNotFound function h.uid)
  else if bits.length ≠ totalWidth (inputs ++ outputs) then
    .error (.argumentCountMismatch (totalWidth (inputs ++ outputs)) bits.length)
  else .ok ()

/-- The placement of a call on single bits. -/
def callPlacement (function : String) (h : Handle) (inputs outputs : List UInt32)
    (bits : List Bit) (slots : Option (List Slot)) (options : CallOptions) : Placement :=
  ⟨function, h.uid, inputs, outputs, bits, slots.getD defaultSlots, options⟩

theorem addCall_yields (function : String) (h : Handle) (inputs outputs : List UInt32)
    (bits : List Bit) (slots : Option (List Slot)) (options : CallOptions) (c : Circuit) :
    let p := callPlacement function h inputs outputs bits slots options
    (addCall function h inputs outputs bits slots options).Yields c
      (.ofCheck c (do Failure.lift (checkCall function h inputs outputs bits); p.verdict c)
        (p.change c)) := by
  intro p trail
  have hp : (place _).Yields c _ := place_yields p c
  unfold addCall checkCall
  cases checkWidths inputs outputs h.intSize.bits with
  | error e => simp
  | ok u =>
    by_cases ha : h.accepts function ⟨inputs.length, outputs.length⟩
    · by_cases hb : bits.length = totalWidth (inputs ++ outputs)
      · simpa [ha, hb, p, callPlacement] using hp trail
      · simp [ha, hb]
    · simp [ha]

/-- The checks that listing the bits of registers makes: the circuit has each of them, and there is
room for its bits. -/
def checkKnown (c : Circuit) : List Register → Except Failure Unit
  | [] => .ok ()
  | r :: rest =>
    if c.register? r.name = some r then do
      r.checkRoom
      checkKnown c rest
    else .error (.refused (.unknownRegister r))

theorem registerBits_eq (c : Circuit) (registers : List Register) :
    registerBits c registers = do
      checkKnown c registers
      return registers.flatMap Register.bits := by
  induction registers with
  | nil => rfl
  | cons r registers ih =>
    rw [registerBits, checkKnown, ih, Register.collectBits, List.flatMap_cons]
    by_cases hr : c.register? r.name = some r
    · rw [if_pos hr, if_pos hr]
      cases r.checkRoom with
      | ok u => cases checkKnown c registers <;> rfl
      | error f => rfl
    · rw [if_neg hr, if_neg hr]
      rfl

theorem checkKnown_ok_iff {c : Circuit} {registers : List Register} :
    checkKnown c registers = .ok () ↔
      ∀ r ∈ registers, c.register? r.name = some r ∧ r.Fits := by
  induction registers with
  | nil => simp [checkKnown]
  | cons r registers ih =>
    rw [checkKnown, List.forall_mem_cons, ← ih]
    by_cases hr : c.register? r.name = some r
    · rw [if_pos hr, bind_eq_ok_iff]
      simp only [r.verdict_checkRoom.ok_iff, hr, true_and, exists_const]
    · rw [if_neg hr]
      exact iff_of_false (fun h => by cases h) fun h => hr h.1.1

/-- All that listing the bits of registers fails with, in whatever circuit. -/
theorem checkKnown_error {c : Circuit} {registers : List Register} {f : Failure}
    (h : checkKnown c registers = .error f) :
    f = .capacity ∨ ∃ r, f = .refused (.unknownRegister r) := by
  induction registers with
  | nil => cases h
  | cons r registers ih =>
    rw [checkKnown] at h
    by_cases hr : c.register? r.name = some r
    · rw [if_pos hr] at h
      by_cases hf : r.Fits
      · rw [r.checkRoom_of_fits hf] at h
        exact ih h
      · rw [r.checkRoom_of_not_fits hf] at h
        cases h
        exact .inl rfl
    · rw [if_neg hr] at h
      cases h
      exact .inr ⟨r, rfl⟩

/-- The checks that adding a call on whole registers makes before it is placed. -/
def checkRegisterCall (c : Circuit) (function : String) (h : Handle)
    (inputs outputs : List Register) : Except Failure Unit := do
  if h.checked then Failure.lift (checkRegisters function h inputs outputs) else .ok ()
  checkKnown c (inputs ++ outputs)

theorem checkRegisters_ok {c : Circuit} {function : String} {h : Handle}
    {inputs outputs : List Register} (hh : h.checked = true)
    (hc : checkRegisterCall c function h inputs outputs = .ok ()) :
    checkRegisters function h inputs outputs = .ok () := by
  rw [checkRegisterCall, if_pos hh] at hc
  obtain ⟨u, hr, -⟩ := bind_eq_ok_iff.1 hc
  exact lift_eq_ok_iff.1 hr

/-- The placement of a call on whole registers. -/
def registerPlacement (function : String) (h : Handle) (inputs outputs : List Register)
    (slots : Option (List Slot)) (options : CallOptions) : Placement :=
  ⟨function, h.uid, recordedWidths inputs, recordedWidths outputs,
    (inputs ++ outputs).flatMap Register.bits, slots.getD defaultSlots, options⟩

theorem placeKnown_yields (p : List Bit → Placement) (registers : List Register) (c : Circuit) :
    (do
      let bits ← checked (registerBits (← current) registers)
      place (p bits) : Edit Unit).Yields c
      (.ofCheck c
        (do
          checkKnown c registers
          (p (registers.flatMap Register.bits)).verdict c)
        ((p (registers.flatMap Register.bits)).change c)) := by
  intro trail
  rw [resume_bind, resume_current]
  dsimp only
  rw [resume_bind, resume_checked, registerBits_eq]
  cases checkKnown c registers with
  | error f => simp
  | ok u => exact place_yields (p (registers.flatMap Register.bits)) c trail

/-- What the trail has of a call through this handle, ahead of all else. -/
def warning (function : String) (h : Handle) : List Entry :=
  if h.checked then [] else [.uncheckedCall function h.uid]

theorem addRegisterCall_yields (function : String) (h : Handle) (inputs outputs : List Register)
    (slots : Option (List Slot)) (options : CallOptions) (c : Circuit) :
    let p := registerPlacement function h inputs outputs slots options
    (addRegisterCall function h inputs outputs slots options).Yields c
      (.noted (warning function h)
        (.ofCheck c
          (do checkRegisterCall c function h inputs outputs; p.verdict c)
          (p.change c))) := by
  intro p
  have hp := placeKnown_yields (fun bits => { p with bits }) (inputs ++ outputs) c
  unfold addRegisterCall checkRegisterCall warning
  by_cases hc : h.checked
  · simp only [hc, ↓reduceIte, bind_assoc, Outcome.noted_nil]
    rw [Outcome.ofCheck_bind]
    exact checked_bind_yields fun _ => hp
  · simp only [hc, Bool.false_eq_true, ↓reduceIte, ok_bind]
    exact (Yields.note _ c).bind hp

end Edit

end CallCircuit
