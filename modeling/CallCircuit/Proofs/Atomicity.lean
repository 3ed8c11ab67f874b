import CallCircuit.Proofs.Checking
import CallCircuit.Proofs.Reachable
import CallCircuit.Session

/-!
# Requests that fail

An update keeps what it has done to its value when it fails, so that a failure leaves no trace is a
property of each update: it is `Update.Atomic`. Updates that only look at the value are
(`Update.Looks`), updates that cannot fail are (`Update.Succeeds`), and an update that looks, then
acts and then cannot fail is.

* `Atomic.after_look`, `Atomic.before_success`: how atomic updates are put together;
* `addCall_atomic`, `addRegisterCall_atomic`, `checkHandle_atomic`: the updates that do much;
* `answer_atomic`: a request that fails changes nothing, unless it is a load;
* `failed_request_leaves_no_trace`: so a sequence of requests is answered as if it were not there.
-/

namespace CallCircuit

open Wasm (Handle ModuleError)

namespace Update

variable {σ τ ε δ α β : Type} {u : Update σ ε α} {f : α → Update σ ε β} {v w : σ}

/-- The update leaves the value as it is. -/
def Looks (u : Update σ ε α) : Prop := ∀ d, (u.resume d).2.value = d.value

/-- The update does not fail. -/
def Succeeds (u : Update σ ε α) : Prop := ∀ d, ∃ a d', u.resume d = (.ok a, d')

/-- When the update fails on this value, it leaves the value as it is. -/
def AtomicOn (v : σ) (u : Update σ ε α) : Prop :=
  ∀ trail e d, u.resume ⟨v, trail⟩ = (.error e, d) → d.value = v

/-- When the update fails, it leaves the value as it is. -/
def Atomic (u : Update σ ε α) : Prop := ∀ v, AtomicOn v u

/-! ## Looking and succeeding -/

theorem Looks.pure (a : α) : (pure a : Update σ ε α).Looks := fun _ => rfl

theorem Looks.throw (e : ε) : (throw e : Update σ ε α).Looks := fun _ => rfl

theorem Looks.current : (current : Update σ ε σ).Looks := fun _ => rfl

theorem Looks.bind (hu : u.Looks) (hf : ∀ a, (f a).Looks) : (u >>= f).Looks := by
  intro d
  have hd := hu d
  rw [resume_bind]
  rcases h : u.resume d with ⟨_ | a, d'⟩
  · rwa [h] at hd
  · rw [h] at hd
    exact (hf a d').trans hd

theorem Looks.map (g : α → β) (hu : u.Looks) : (g <$> u).Looks := by
  intro d
  rw [resume_map]
  exact hu d

theorem Succeeds.pure (a : α) : (pure a : Update σ ε α).Succeeds := fun d => ⟨a, d, rfl⟩

theorem Succeeds.current : (current : Update σ ε σ).Succeeds := fun d => ⟨d.value, d, rfl⟩

theorem Succeeds.put (v : σ) : (put v : Update σ ε Unit).Succeeds := fun d =>
  ⟨(), ⟨v, d.trail⟩, rfl⟩

theorem Succeeds.bind (hu : u.Succeeds) (hf : ∀ a, (f a).Succeeds) : (u >>= f).Succeeds := by
  intro d
  obtain ⟨a, d', h⟩ := hu d
  rw [resume_bind, h]
  exact hf a d'

theorem Succeeds.map (g : α → β) (hu : u.Succeeds) : (g <$> u).Succeeds := by
  intro d
  obtain ⟨a, d', h⟩ := hu d
  exact ⟨g a, d', by rw [resume_map, h]; rfl⟩

/-! ## Putting atomic updates together -/

theorem Looks.atomic (hu : u.Looks) : u.Atomic := fun v trail e d h => by
  simpa [h] using hu ⟨v, trail⟩

theorem Succeeds.atomic (hu : u.Succeeds) : u.Atomic := fun v trail e d h => by
  obtain ⟨a, d', h'⟩ := hu ⟨v, trail⟩
  exact nomatch h.symm.trans h'

/-- Looking at the value ahead of an atomic update. -/
theorem Atomic.after_look (hu : u.Looks) (hf : ∀ a, (f a).Atomic) : (u >>= f).Atomic := by
  intro v trail e d h
  have hv := hu ⟨v, trail⟩
  rw [resume_bind] at h
  rcases hr : u.resume ⟨v, trail⟩ with ⟨e' | a, ⟨w, t⟩⟩ <;> rw [hr] at h hv <;> cases hv
  · cases h
    rfl
  · exact hf a v t e d h

/-- What cannot fail, behind an atomic update. -/
theorem Atomic.before_success (hu : u.Atomic) (hf : ∀ a, (f a).Succeeds) : (u >>= f).Atomic := by
  intro v trail e d h
  rw [resume_bind] at h
  rcases hr : u.resume ⟨v, trail⟩ with ⟨e' | a, d'⟩ <;> rw [hr] at h
  · cases h
    exact hu v trail e d hr
  · obtain ⟨b, d'', hb⟩ := hf a d'
    exact nomatch h.symm.trans hb

theorem Atomic.map (g : α → β) (hu : u.Atomic) : (g <$> u).Atomic := by
  rw [map_eq_pure_bind]
  exact hu.before_success fun a => .pure (g a)

/-- An update is atomic where it yields the old value with every error. -/
theorem atomicOn_of_yields {out : Outcome σ ε α} (h : u.Yields v out)
    (hv : ∀ e, out.result = .error e → out.value = v) : u.AtomicOn v := by
  intro trail e d hd
  rw [h trail, Prod.mk.injEq] at hd
  obtain ⟨hr, rfl⟩ := hd
  exact hv e hr

/-- A check and then a change that cannot fail. -/
theorem atomicOn_of_check {γ : Type} {check : Except ε γ} {change : γ → Outcome σ ε α}
    (entries : List Entry) (h : u.Yields v (.noted entries (.ofCheck v check change)))
    (hc : ∀ c e, (change c).result ≠ .error e) : u.AtomicOn v := by
  refine atomicOn_of_yields h fun e he => ?_
  cases check with
  | ok c => exact absurd he (hc c e)
  | error e' => rfl

/-! ## Parts of larger values -/

theorem resume_within (part : τ → σ) (set : σ → τ → τ) (fail : ε → δ) (u : Update σ ε α)
    (d : Draft τ) :
    resume (u.within part set fail) d =
      ((u.apply (part d.value)).result.mapError fail,
        ⟨set (u.apply (part d.value)).value d.value,
          d.trail ++ (u.apply (part d.value)).trail⟩) := by
  rw [within, resume_bind, resume_current]
  show resume ((modify _ : Update τ δ PUnit) >>= _) d = _
  rw [resume_bind]
  cases (u.apply (part d.value)).result <;> rfl

theorem apply_eq (u : Update σ ε α) (v : σ) :
    u.apply v =
      ⟨(u.resume ⟨v, []⟩).1, (u.resume ⟨v, []⟩).2.value, (u.resume ⟨v, []⟩).2.trail⟩ := rfl

theorem AtomicOn.apply_value {e : ε} (hu : u.AtomicOn v) (h : (u.apply v).result = .error e) :
    (u.apply v).value = v := by
  rw [apply_eq] at h ⊢
  exact hu [] e _ (Prod.ext h rfl)

theorem Succeeds.apply_result (hu : u.Succeeds) (v : σ) : ∃ a, (u.apply v).result = .ok a := by
  obtain ⟨a, d, h⟩ := hu ⟨v, []⟩
  exact ⟨a, by rw [apply_eq, h]⟩

theorem AtomicOn.within {part : τ → σ} {set : σ → τ → τ} {fail : ε → δ} {t : τ}
    (hset : set (part t) t = t) (hu : u.AtomicOn (part t)) :
    (u.within part set fail).AtomicOn t := by
  intro trail e d h
  rw [resume_within, Prod.mk.injEq] at h
  obtain ⟨hr, rfl⟩ := h
  cases hx : (u.apply (part t)).result with
  | ok a =>
    rw [hx] at hr
    cases hr
  | error e' => exact (congrArg (set · t) (hu.apply_value hx)).trans hset

end Update

/-! ## Edits and checks -/

open Update

namespace Edit

theorem addRegister_atomic (name : String) (size : UInt64) : (addRegister name size).Atomic := by
  refine fun c => atomicOn_of_yields (addRegister_yields name size c) fun e he => ?_
  by_cases hn : (c.register? name).isSome
  · rw [if_pos hn]
  · rw [if_neg hn] at he ⊢
    by_cases hf : Register.Fits ⟨name, size⟩
    · rw [if_pos hf] at he
      cases he
    · rw [if_neg hf]

theorem addCall_atomic (function : String) (h : Handle) (inputs outputs : List UInt32)
    (bits : List Bit) (slots : Option (List Slot)) (options : CallOptions) :
    (addCall function h inputs outputs bits slots options).Atomic := fun c =>
  atomicOn_of_check [] (addCall_yields function h inputs outputs bits slots options c)
    fun _ _ => nofun

theorem addRegisterCall_atomic (function : String) (h : Handle) (inputs outputs : List Register)
    (slots : Option (List Slot)) (options : CallOptions) :
    (addRegisterCall function h inputs outputs slots options).Atomic := fun c =>
  atomicOn_of_check (warning function h)
    (addRegisterCall_yields function h inputs outputs slots options c) fun _ _ => nofun

theorem growSlots_succeeds (least : UInt64) : (growSlots least).Succeeds := fun d =>
  ⟨_, _, growSlots_yields least d.value d.trail⟩

end Edit

/-! ## Requests -/

namespace Session

theorem getHandle_looks (place : Nat) : (getHandle place).Looks := by
  unfold getHandle
  refine Looks.current.bind fun s => ?_
  cases s.handles[place]? with
  | none => exact .throw _
  | some h? =>
    cases h? with
    | none => exact .throw _
    | some h => exact .pure h

theorem getCircuit_looks : getCircuit.Looks := Looks.current.bind fun s => .pure s.circuit

theorem ask_looks {α : Type} (place : Nat) (question : Handle → Except ModuleError α) :
    (ask place question).Looks := by
  refine (getHandle_looks place).bind fun h => ?_
  cases question h with
  | ok a => exact .pure a
  | error e => exact .throw _

theorem lastCommand_looks : lastCommand.Looks :=
  getCircuit_looks.bind fun c => .pure c.commands.getLast?

theorem registerBit_looks (name : String) (index : UInt64) : (registerBit name index).Looks := by
  refine getCircuit_looks.bind fun c => ?_
  cases c.register? name with
  | none => exact .throw _
  | some r =>
    cases hb : r.bit index with
    | ok b => simpa only [hb] using .pure b
    | error e => simpa only [hb] using .throw _

theorem adopt_looks {σ ε α δ : Type} (fail : δ → ε) (made : Except δ α × List Entry) :
    (adopt fail made : Update σ ε α).Looks := by
  refine Looks.bind (fun _ => rfl) fun _ => ?_
  cases made.1 with
  | ok a => exact .pure a
  | error e => exact .throw _

theorem putCircuit_succeeds (c : Circuit) : (putCircuit c).Succeeds :=
  Succeeds.current.bind fun _ => .put _

theorem edit_atomic {α : Type} {e : Edit α} (he : e.Atomic) : (edit e).Atomic := fun s =>
  AtomicOn.within (t := s) rfl (he s.circuit)

theorem edit_succeeds {α : Type} {e : Edit α} (he : e.Succeeds) : (edit e).Succeeds := by
  intro d
  obtain ⟨a, h⟩ := he.apply_result d.value.circuit
  exact ⟨a, _, by rw [edit, resume_within, h]; rfl⟩

theorem getCircuit_succeeds : getCircuit.Succeeds := Succeeds.current.bind fun s => .pure s.circuit

theorem lastCommand_succeeds : lastCommand.Succeeds :=
  getCircuit_succeeds.bind fun c => .pure c.commands.getLast?

theorem getHandle_yields {s : Session} {place : Nat} {h : Handle}
    (hs : s.handles[place]? = some (some h)) : (getHandle place).Yields s ⟨.ok h, s, []⟩ := by
  intro trail
  simp [getHandle, hs]

theorem getHandle_yields_error {s : Session} {place : Nat}
    (hs : ∀ h, s.handles[place]? ≠ some (some h)) :
    (getHandle place).Yields s ⟨.error .noHandle, s, []⟩ := by
  intro trail
  rw [getHandle, resume_bind, resume_current]
  dsimp only
  split
  · exact absurd ‹_› (hs _)
  · rw [List.append_nil, resume_throw]

/-- The session with another handle at a place. -/
def withHandle (s : Session) (place : Nat) (h : Handle) : Session :=
  { s with handles := s.handles.set place (some h) }

theorem withHandle_self {s : Session} {place : Nat} {h : Handle}
    (hs : s.handles[place]? = some (some h)) : s.withHandle place h = s := by
  obtain ⟨hlt, he⟩ := List.getElem?_eq_some_iff.1 hs
  rw [withHandle, ← he, List.set_getElem_self]

/-- Checking the handle at a place comes to what checking the handle comes to. -/
theorem checkHandle_yields {s : Session} {place : Nat} {h : Handle}
    (hs : s.handles[place]? = some (some h)) :
    (checkHandle place).Yields s
      ⟨((Handle.check.apply h).result.mapError .module).map fun _ => (Handle.check.apply h).value,
        s.withHandle place (Handle.check.apply h).value, (Handle.check.apply h).trail⟩ := by
  have hset : (s.withHandle place (Handle.check.apply h).value).handles[place]? =
      some (some (Handle.check.apply h).value) :=
    List.getElem?_set_self (List.getElem?_eq_some_iff.1 hs).1
  intro trail
  rw [checkHandle, resume_bind, getHandle_yields hs trail, List.append_nil]
  simp only [resume_bind, resume_within]
  cases (Handle.check.apply h).result with
  | error e => rfl
  | ok u =>
    have hlast := getHandle_yields hset (trail ++ (Handle.check.apply h).trail)
    rwa [List.append_nil] at hlast

theorem checkHandle_atomic (place : Nat) : (checkHandle place).Atomic := by
  intro s
  by_cases hs : ∃ h, s.handles[place]? = some (some h)
  · obtain ⟨h, hs⟩ := hs
    refine atomicOn_of_yields (checkHandle_yields hs) fun e he => ?_
    cases hr : (Handle.check.apply h).result with
    | ok u =>
      rw [hr] at he
      cases he
    | error e' => rw [(Handle.check_error hr).2, withHandle_self hs]
  · have hg := getHandle_yields_error (not_exists.1 hs)
    exact atomicOn_of_yields hg.bind_error fun _ _ => rfl

/-- The request is for a module to be loaded, which takes a place among the handles in any case. -/
def Loads : Request → Prop
  | .load .. | .loadFile .. => True
  | _ => False

/-- A request that fails changes nothing, unless it is a load. -/
theorem answer_atomic {request : Request} (hl : ¬ Loads request) : (answer request).Atomic := by
  cases request with
  | load | loadFile => exact absurd trivial hl
  | check place => exact (checkHandle_atomic place).map _
  | handle place => exact ((getHandle_looks place).map _).atomic
  | functions place => exact ((ask_looks place _).map _).atomic
  | unsupported place => exact ((ask_looks place _).map _).atomic
  | describe place => exact ((ask_looks place _).map _).atomic
  | report place =>
    exact Looks.atomic <| (ask_looks place _).bind fun _ => (ask_looks place _).bind fun _ =>
      (ask_looks place _).bind fun _ => .pure _
  | accepts place function arity =>
    exact ((getHandle_looks place).bind fun _ => .pure _).atomic
  | clear => exact ((putCircuit_succeeds _).bind fun _ => .pure _).atomic
  | clearNamed name => exact ((putCircuit_succeeds _).bind fun _ => .pure _).atomic
  | clearWithBits bitCount =>
    exact .after_look (adopt_looks _ _) fun c =>
      ((putCircuit_succeeds c).bind fun _ => .pure _).atomic
  | addRegister name size =>
    exact (edit_atomic (Edit.addRegister_atomic name size)).before_success fun _ => .pure _
  | register name => exact (getCircuit_looks.bind fun _ => .pure _).atomic
  | registerBit name index => exact ((registerBit_looks name index).map _).atomic
  | containsBit bit => exact (getCircuit_looks.bind fun _ => .pure _).atomic
  | bits => exact (getCircuit_looks.bind fun _ => .pure _).atomic
  | registers => exact (getCircuit_looks.bind fun _ => .pure _).atomic
  | slots => exact (getCircuit_looks.bind fun _ => (adopt_looks _ _).map _).atomic
  | growSlots least => exact ((edit_succeeds (Edit.growSlots_succeeds least)).map _).atomic
  | addCall place function inputs outputs bits slots options =>
    exact .after_look (getHandle_looks place) fun h =>
      (edit_atomic
        (Edit.addCall_atomic function h inputs outputs bits slots options)).before_success
        fun _ => lastCommand_succeeds.map _
  | addRegisterCall place function inputs outputs slots options =>
    exact .after_look (getHandle_looks place) fun h =>
      (edit_atomic
        (Edit.addRegisterCall_atomic function h inputs outputs slots options)).before_success
        fun _ => lastCommand_succeeds.map _
  | circuit => exact (getCircuit_looks.bind fun _ => .pure _).atomic
  | readCircuit text =>
    exact .after_look (adopt_looks _ _) fun c =>
      ((putCircuit_succeeds c).bind fun _ => .pure _).atomic
  | readsBack =>
    exact Looks.atomic <| getCircuit_looks.bind fun _ => (adopt_looks _ _).bind fun _ => .pure _
  | save => exact (Succeeds.current.bind fun _ => (Succeeds.put _).bind fun _ => .pure _).atomic
  | sameAsSaved => exact (Looks.current.bind fun _ => .pure _).atomic

/-! ## Sequences of requests -/

/-- The session after requests. -/
def after (s : Session) : List Request → Session
  | [] => s
  | request :: requests => (((answer request).apply s).value).after requests

theorem answers_append (s : Session) (before after : List Request) :
    s.answers (before ++ after) = s.answers before ++ (s.after before).answers after := by
  induction before generalizing s with
  | nil => rfl
  | cons request before ih => exact congrArg (_ :: ·) (ih _)

theorem length_answers (s : Session) (requests : List Request) :
    (s.answers requests).length = requests.length := by
  induction requests generalizing s with
  | nil => rfl
  | cons request requests ih => exact congrArg (· + 1) (ih _)

/-- A request other than a load that fails, after any requests, leaves the session as it was, and
requests after it are answered as if it were not there. If it was a check, the handle has no table,
neither before nor after. -/
theorem failed_request_leaves_no_trace (s : Session) (before : List Request) {request : Request}
    {fault : Fault} (hl : ¬ Loads request)
    (hf : ((answer request).apply (s.after before)).result = .error fault) :
    ((answer request).apply (s.after before)).value = s.after before ∧
      (∀ place h, request = .check place →
        ((answer request).apply (s.after before)).value.handles[place]? = some (some h) →
          h.checked = false ∧ h.exports = none) ∧
      ∀ after, (s.answers (before ++ request :: after)).eraseIdx before.length =
        s.answers (before ++ after) := by
  have hv := (answer_atomic hl (s.after before)).apply_value hf
  refine ⟨hv, fun place h hr hs => ?_, fun after => ?_⟩
  · subst hr
    rw [hv] at hs
    have hn : h.exports = none := by
      cases hc : (Handle.check.apply h).result with
      | error e => exact (Handle.check_error hc).1
      | ok u =>
        rw [answer, apply_eq, resume_map, checkHandle_yields hs, hc] at hf
        cases hf
    exact ⟨by rw [Handle.checked, hn]; rfl, hn⟩
  · rw [answers_append, answers_append, answers, ← length_answers s before, hv,
      List.eraseIdx_append_of_length_le (Nat.le_refl _), Nat.sub_self]
    rfl

/-- A session with a handle that has not been checked. -/
def uncheckedSession : Session := { handles := [some uncheckedHandle] }

/-- A call on a slot that no state register can cover. -/
def overflowingRequest : Request :=
  .addCall 0 "f" [1] [] [⟨defaultRegister, 0⟩] (some [⟨5⟩, lastSlot]) {}

theorem overflowing_request_leaves_no_trace :
    let s := uncheckedSession.after [.clearWithBits 1]
    ((answer overflowingRequest).apply s).result = .error (.circuit .overflow) ∧
      ((answer overflowingRequest).apply s).value = s ∧
      (uncheckedSession.answers [.clearWithBits 1, overflowingRequest, .slots, .bits]).eraseIdx 1 =
        uncheckedSession.answers [.clearWithBits 1, .slots, .bits] :=
  have hf : ((answer overflowingRequest).apply
      (uncheckedSession.after [.clearWithBits 1])).result = .error (.circuit .overflow) := rfl
  have h := failed_request_leaves_no_trace uncheckedSession [.clearWithBits 1] id hf
  ⟨hf, h.1, h.2.2 [.slots, .bits]⟩

end Session

end CallCircuit
