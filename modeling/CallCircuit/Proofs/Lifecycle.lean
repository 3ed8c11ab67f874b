import CallCircuit.Proofs.Restriction
import CallCircuit.Proofs.Atomicity

/-!
# The life of a handle

A handle that is loaded without a check knows nothing of its module, until a check of it succeeds.
From then on it has a table and never changes again. In between a session may serve requests of
any kind, and of these only a check of the handle itself does anything to it.

* `Update.Preserves`: what still holds after an update, whether it succeeds or not;
* `Session.answer_preserves`: no other request touches the handle at a place;
* `Session.hasHandle_after`: so a run leaves the handle as it was, or as its check makes it;
* `Session.check_in_history`: all checks of a run come to the same, an error or a success;
* `Session.handle_life_cycle`: what this says of the answers of a handle, from its load on.
-/

namespace CallCircuit

open Wasm (Arity Bytes FunctionTable Handle IntSize ModuleError initFunction)

/-! ## Updates that preserve what holds -/

namespace Update

variable {σ ε α β : Type} {u : Update σ ε α} {f : α → Update σ ε β} {inv : σ → Prop}

/-- What holds of the value still holds after the update, whether it has succeeded or failed. -/
def Preserves (inv : σ → Prop) (u : Update σ ε α) : Prop :=
  ∀ d, inv d.value → inv (u.resume d).2.value

theorem Looks.preserves (hu : u.Looks) : u.Preserves inv := fun d hd => (hu d).symm ▸ hd

theorem Preserves.bind (hu : u.Preserves inv) (hf : ∀ a, (f a).Preserves inv) :
    (u >>= f).Preserves inv := by
  intro d hd
  have hd' := hu d hd
  rw [resume_bind]
  rcases h : u.resume d with ⟨_ | a, d'⟩
  · rwa [h] at hd'
  · rw [h] at hd'
    exact hf a d' hd'

theorem Preserves.map (g : α → β) (hu : u.Preserves inv) : (g <$> u).Preserves inv := by
  intro d hd
  rw [resume_map]
  exact hu d hd

theorem Preserves.apply (hu : u.Preserves inv) {v : σ} (hv : inv v) : inv (u.apply v).value :=
  hu ⟨v, []⟩ hv

/-- An update of a part preserves what holds of the whole whatever the part becomes. -/
theorem Preserves.within {τ δ : Type} {inv : τ → Prop} {part : τ → σ} {set : σ → τ → τ}
    {fail : ε → δ} (hset : ∀ t v, inv t → inv (set v t)) :
    (u.within part set fail).Preserves inv := by
  intro d hd
  rw [resume_within]
  exact hset _ _ hd

end Update

open Update

/-! ## What a handle answers -/

namespace Wasm.Handle

theorem checked_of_check_ok {h : Handle} (hok : (check.apply h).result = .ok ()) :
    (check.apply h).value.checked = true := by
  have hk := h.checks
  rw [hok] at hk
  generalize (check.apply h).value = h' at hk ⊢
  cases hk with
  | again checked => exact checked
  | read unchecked found => rfl

/-- The handle answers as one whose module has not been read: it takes every call, and refuses to
say what the module exports. -/
structure Unread (h : Handle) : Prop where
  unchecked : h.checked = false
  accepts : ∀ function arity, h.accepts function arity = true
  functions : h.functions = .error .unchecked
  unsupported : h.unsupported = .error .unchecked
  describe : h.describe = .error .unchecked

theorem unread_of_exports {h : Handle} (hu : h.exports = none) : h.Unread := by
  obtain ⟨bytes, uid, intSize, exports⟩ := h
  cases hu
  exact ⟨rfl, fun _ _ => rfl, rfl, rfl, rfl⟩

/-- The handle answers from this table, which has `init` without parameters and results and no
function with more than one result: it takes the calls that the table has. -/
structure AnswersFrom (h : Handle) (table : FunctionTable) : Prop where
  checked : h.checked = true
  functions : h.functions = .ok table
  init : table.find? initFunction = some ⟨0, 0⟩
  single : ∀ name arity, table.find? name = some arity → arity.results ≤ 1
  accepts : ∀ name arity, h.accepts name arity = true ↔ table.find? name = some arity

/-- A check that succeeds on a handle without a table gives it one to answer from. -/
theorem exists_answersFrom {h : Handle} (hu : h.exports = none)
    (hok : (check.apply h).result = .ok ()) : ∃ table, (check.apply h).value.AnswersFrom table := by
  have hk := h.checks
  rw [hok] at hk
  generalize (check.apply h).value = h' at hk ⊢
  cases hk with
  | again checked => exact nomatch (unread_of_exports hu).unchecked.symm.trans checked
  | @read table unchecked found =>
    obtain ⟨m, -, exposes⟩ := (h.verdict_reading.ok_iff table).1 found
    have find?_iff (name : String) (arity : Arity) : table.supported.find? name = some arity ↔
        m.LastOffer h.intSize.valueType m.exports name arity := exposes.tabulates.find?_iff
    refine ⟨table.supported, rfl, rfl, (find?_iff _ _).2 exposes.init, fun name arity hf => ?_,
      fun name arity => beq_iff_eq⟩
    obtain ⟨e, -, -, s, -, callable, rfl⟩ := ((find?_iff name arity).1 hf).offered
    exact callable.1

end Wasm.Handle

/-! ## Requests that leave a handle alone -/

namespace Session

variable {s : Session} {place : Nat} {h : Handle}

/-- The handle stands at the place. -/
def HasHandle (s : Session) (place : Nat) (h : Handle) : Prop :=
  s.handles[place]? = some (some h)

theorem edit_preserves {α : Type} (e : Edit α) : (edit e).Preserves (·.HasHandle place h) :=
  .within fun _ _ hs => hs

theorem putCircuit_preserves (c : Circuit) : (putCircuit c).Preserves (·.HasHandle place h) :=
  fun _ hd => hd

theorem addHandle_preserves (loaded : Except ModuleError Handle × List Entry) :
    (addHandle loaded).Preserves (·.HasHandle place h) := by
  intro d hd
  have hs : HasHandle { d.value with handles := d.value.handles ++ [loaded.1.toOption] }
        place h := by
    rw [HasHandle, List.getElem?_append_left (List.getElem?_eq_some_iff.1 hd).1]
    exact hd
  have ha : (adopt Fault.module loaded : Action Handle).Preserves (·.HasHandle place h) :=
    (adopt_looks _ _).preserves
  exact ha ⟨_, d.trail⟩ hs

theorem checkHandle_preserves {other : Nat} (hne : other ≠ place) :
    (checkHandle other).Preserves (·.HasHandle place h) := by
  refine (getHandle_looks other).preserves.bind fun _ =>
    (Preserves.within fun s h' hs => ?_).bind fun _ => (getHandle_looks other).preserves
  rw [HasHandle, List.getElem?_set_ne hne]
  exact hs

/-- No request but a check of its place does anything to a handle. -/
theorem answer_preserves {request : Request} (hr : request ≠ .check place) :
    (answer request).Preserves (·.HasHandle place h) := by
  cases request with
  | load | loadFile => exact (addHandle_preserves _).map _
  | check other => exact (checkHandle_preserves fun he => hr (congrArg _ he)).map _
  | handle other => exact ((getHandle_looks other).map _).preserves
  | functions other => exact ((ask_looks other _).map _).preserves
  | unsupported other => exact ((ask_looks other _).map _).preserves
  | describe other => exact ((ask_looks other _).map _).preserves
  | report other =>
    exact Looks.preserves <| (ask_looks other _).bind fun _ => (ask_looks other _).bind fun _ =>
      (ask_looks other _).bind fun _ => .pure _
  | accepts other function arity =>
    exact ((getHandle_looks other).bind fun _ => .pure _).preserves
  | clear | clearNamed => exact fun _ hd => hd
  | addRegister | growSlots => exact (edit_preserves _).map _
  | addCall other | addRegisterCall other =>
    exact (getHandle_looks other).preserves.bind fun _ => (edit_preserves _).bind fun _ =>
      (lastCommand_looks.map _).preserves
  | register | containsBit | bits | registers | circuit =>
    exact (getCircuit_looks.bind fun _ => .pure _).preserves
  | slots => exact (getCircuit_looks.bind fun _ => (adopt_looks _ _).map _).preserves
  | registerBit name index => exact ((registerBit_looks name index).map _).preserves
  | clearWithBits | readCircuit =>
    exact (adopt_looks _ _).preserves.bind fun c =>
      (putCircuit_preserves c).bind fun _ => (Looks.pure _).preserves
  | readsBack =>
    exact Looks.preserves <| getCircuit_looks.bind fun _ => (adopt_looks _ _).bind fun _ => .pure _
  | save => exact fun _ hd => hd
  | sameAsSaved => exact (Looks.current.bind fun _ => .pure _).preserves

/-! ## Checks of a handle along a run -/

/-- The requests with what they have come to. -/
def history (s : Session) (requests : List Request) : List (Request × Outcome Session Fault Answer) :=
  requests.zip (s.answers requests)

theorem mem_history_iff {requests : List Request} {request : Request}
    {out : Outcome Session Fault Answer} :
    (request, out) ∈ s.history requests ↔
      ∃ before rest, requests = before ++ request :: rest ∧
        out = (answer request).apply (s.after before) := by
  induction requests generalizing s with
  | nil => simp [history]
  | cons first requests ih =>
    have hcons : s.history (first :: requests) =
        (first, (answer first).apply s) :: ((answer first).apply s).value.history requests := rfl
    rw [hcons, List.mem_cons, ih]
    constructor
    · rintro (he | ⟨before, rest, rfl, rfl⟩)
      · cases he
        exact ⟨[], requests, rfl, rfl⟩
      · exact ⟨first :: before, rest, rfl, rfl⟩
    · rintro ⟨before, rest, he, rfl⟩
      cases before with
      | nil =>
        cases he
        exact .inl rfl
      | cons request' before =>
        cases he
        exact .inr ⟨before, rest, rfl, rfl⟩

theorem answer_check_apply (hs : s.HasHandle place h) :
    (answer (.check place)).apply s =
      ⟨((Handle.check.apply h).result.mapError .module).map fun _ =>
          .handle (Handle.check.apply h).value,
        s.withHandle place (Handle.check.apply h).value, (Handle.check.apply h).trail⟩ := by
  rw [apply_eq, answer, resume_map, checkHandle_yields hs]
  cases (Handle.check.apply h).result <;> rfl

/-- Checking a handle again does nothing. -/
theorem answer_check_again (hs : s.HasHandle place h) (hc : h.checked = true) :
    (answer (.check place)).apply s = ⟨.ok (.handle h), s, []⟩ := by
  rw [answer_check_apply hs, (Handle.checked_yields hc).apply, withHandle_self hs]
  rfl

theorem answer_check_error (hs : s.HasHandle place h) {e : ModuleError}
    (he : (Handle.check.apply h).result = .error e) :
    ((answer (.check place)).apply s).result = .error (.module e) ∧
      ((answer (.check place)).apply s).value = s := by
  rw [answer_check_apply hs, he, (Handle.check_error he).2, withHandle_self hs]
  exact ⟨rfl, rfl⟩

theorem answer_check_ok (hs : s.HasHandle place h) (hok : (Handle.check.apply h).result = .ok ()) :
    ((answer (.check place)).apply s).result = .ok (.handle (Handle.check.apply h).value) ∧
      ((answer (.check place)).apply s).value.HasHandle place (Handle.check.apply h).value := by
  rw [answer_check_apply hs, hok]
  exact ⟨rfl, List.getElem?_set_self (List.getElem?_eq_some_iff.1 hs).1⟩

/-- No run of requests changes a handle that has been checked. -/
theorem hasHandle_after_of_checked (hs : s.HasHandle place h) (hc : h.checked = true)
    (requests : List Request) : (s.after requests).HasHandle place h := by
  induction requests generalizing s with
  | nil => exact hs
  | cons request requests ih =>
    refine ih ?_
    by_cases hr : request = .check place
    · rw [hr, answer_check_again hs hc]
      exact hs
    · exact (answer_preserves hr).apply hs

/-- What a run leaves of an unchecked handle: the same handle, whose check fails if the run asks for
one, or else the handle after its check. -/
theorem hasHandle_after (hs : s.HasHandle place h) (requests : List Request) :
    (s.after requests).HasHandle place h ∧
        (.check place ∈ requests → ∃ e, (Handle.check.apply h).result = .error e) ∨
      .check place ∈ requests ∧ (Handle.check.apply h).result = .ok () ∧
        (s.after requests).HasHandle place (Handle.check.apply h).value := by
  induction requests generalizing s with
  | nil => exact .inl ⟨hs, nofun⟩
  | cons request requests ih =>
    by_cases hr : request = .check place
    · subst hr
      cases hres : (Handle.check.apply h).result with
      | error e =>
        have hv := (answer_check_error hs hres).2
        rcases ih (hv.symm ▸ hs) with ⟨hh, -⟩ | ⟨-, hok, -⟩
        · exact .inl ⟨hh, fun _ => ⟨e, rfl⟩⟩
        · exact nomatch hres.symm.trans hok
      | ok u =>
        have hh := (answer_check_ok hs hres).2
        exact .inr ⟨List.mem_cons_self, rfl,
          hasHandle_after_of_checked hh (Handle.checked_of_check_ok hres) requests⟩
    · have hmem : .check place ∈ request :: requests ↔ .check place ∈ requests := by
        rw [List.mem_cons, or_iff_right (Ne.symm hr)]
      rw [hmem]
      exact ih ((answer_preserves hr).apply hs)

/-- What a check in a run comes to: an error if the check of the handle is one, and else never
an error. -/
theorem check_in_history (hs : s.HasHandle place h) {requests : List Request}
    {out : Outcome Session Fault Answer} (hm : (.check place, out) ∈ s.history requests) :
    (∃ e, (Handle.check.apply h).result = .error e ∧ out.result = .error (.module e)) ∨
      (Handle.check.apply h).result = .ok () ∧ ∃ a, out.result = .ok a := by
  obtain ⟨before, rest, rfl, rfl⟩ := mem_history_iff.1 hm
  rcases hasHandle_after hs before with ⟨hh, -⟩ | ⟨-, hok, hh⟩
  · cases hres : (Handle.check.apply h).result with
    | error e => exact .inl ⟨e, rfl, (answer_check_error hh hres).1⟩
    | ok u => exact .inr ⟨rfl, _, (answer_check_ok hh hres).1⟩
  · have hagain := answer_check_again hh (Handle.checked_of_check_ok hok)
    exact .inr ⟨hok, _, by rw [hagain]⟩

/-! ## From the load on -/

/-- The unchecked handle on bytes. -/
def freshHandle (bytes : Bytes) (intSize : IntSize) : Handle :=
  { bytes, uid := Sha256.hexDigest bytes, intSize }

theorem load_unchecked (bytes : Bytes) (intSize : IntSize) :
    Handle.load bytes false intSize.bits = (.ok (freshHandle bytes intSize), []) := by
  cases intSize <;> rfl

theorem load_checked (bytes : Bytes) (intSize : IntSize) :
    let out := Handle.check.apply (freshHandle bytes intSize)
    Handle.load bytes true intSize.bits = (out.result.map fun _ => out.value, out.trail) := by
  cases intSize <;> rfl

/-- A load without a check puts the fresh handle behind the others. -/
theorem hasHandle_after_load (s : Session) (bytes : Bytes) (intSize : IntSize) :
    (s.after [.load bytes false intSize.bits]).HasHandle s.handles.length
      (freshHandle bytes intSize) := by
  have hv : (s.after [.load bytes false intSize.bits]).handles =
      s.handles ++ [some (freshHandle bytes intSize)] := by
    rw [after, after, answer, load_unchecked]
    rfl
  rw [HasHandle, hv]
  exact List.getElem?_concat_length

/-- No check of the handle at the place has succeeded in the run. -/
def NeverChecked (s : Session) (place : Nat) (requests : List Request) : Prop :=
  ∀ out, (.check place, out) ∈ s.history requests → ∀ a, out.result ≠ .ok a

theorem exists_mem_history {requests : List Request} {request : Request}
    (hm : request ∈ requests) : ∃ out, (request, out) ∈ s.history requests := by
  obtain ⟨before, rest, he⟩ := List.append_of_mem hm
  exact ⟨_, mem_history_iff.2 ⟨before, rest, he, rfl⟩⟩

theorem not_neverChecked_iff (hs : s.HasHandle place h) {requests : List Request} :
    ¬ s.NeverChecked place requests ↔
      .check place ∈ requests ∧ (Handle.check.apply h).result = .ok () := by
  rw [NeverChecked]
  push Not
  constructor
  · rintro ⟨out, hm, a, ha⟩
    obtain ⟨before, rest, he, -⟩ := mem_history_iff.1 hm
    rcases check_in_history hs hm with ⟨e, -, he'⟩ | ⟨hok, -⟩
    · exact nomatch ha.symm.trans he'
    · exact ⟨he ▸ List.mem_append_right _ List.mem_cons_self, hok⟩
  · rintro ⟨hmem, hok⟩
    obtain ⟨out, hm⟩ := exists_mem_history (s := s) hmem
    rcases check_in_history hs hm with ⟨e, he, -⟩ | ⟨-, a, ha⟩
    · exact nomatch hok.symm.trans he
    · exact ⟨out, hm, a, ha⟩

/-- A handle is loaded without a check, in any session, and then any requests are made. It keeps its
bytes, uid and integer size. As long as no check of it has succeeded, it answers as one that has not
been read, and each check of it has come to the error of its first check. As soon as one has
succeeded it is the handle that its first check makes of it, which answers from a table, and checking
it again does nothing. Loading with a check gives just that handle, or that error. -/
theorem handle_life_cycle (s : Session) (bytes : Bytes) (intSize : IntSize) :
    ∃ fresh, (Handle.load bytes false intSize.bits).1 = .ok fresh ∧
      (∀ h, (Handle.load bytes true intSize.bits).1 = .ok h ↔
        (Handle.check.apply fresh).result = .ok () ∧ (Handle.check.apply fresh).value = h) ∧
      (∀ e, (Handle.load bytes true intSize.bits).1 = .error e ↔
        (Handle.check.apply fresh).result = .error e) ∧
      ∀ requests : List Request,
        let place := s.handles.length
        let start := s.after [.load bytes false intSize.bits]
        let now := start.after requests
        ∃ h, now.HasHandle place h ∧
          h.bytes = bytes ∧ h.uid = Sha256.hexDigest bytes ∧ h.intSize = intSize ∧
          (start.NeverChecked place requests →
            h.Unread ∧ ∀ out, (.check place, out) ∈ start.history requests →
              ∃ e, (Handle.check.apply fresh).result = .error e ∧
                out.result = .error (.module e)) ∧
          (¬ start.NeverChecked place requests →
            h = (Handle.check.apply fresh).value ∧
              (answer (.check place)).apply now = ⟨.ok (.handle h), now, []⟩ ∧
              ∃ table, h.AnswersFrom table) := by
  have hu : (freshHandle bytes intSize).exports = none := rfl
  refine ⟨freshHandle bytes intSize, by rw [load_unchecked], fun h => ?_, fun e => ?_,
    fun requests => ?_⟩
  · rw [load_checked]
    cases (Handle.check.apply (freshHandle bytes intSize)).result <;> simp [Except.map]
  · rw [load_checked]
    cases (Handle.check.apply (freshHandle bytes intSize)).result <;> simp [Except.map]
  · intro place start now
    have hs : start.HasHandle place (freshHandle bytes intSize) :=
      hasHandle_after_load s bytes intSize
    rcases hasHandle_after hs requests with ⟨hh, hfail⟩ | ⟨hmem, hok, hh⟩
    · -- the handle is the fresh one, so any check in the run has failed
      refine ⟨freshHandle bytes intSize, hh, rfl, rfl, rfl, fun hnever => ⟨?_, fun out hm => ?_⟩,
        fun hsome => ?_⟩
      · exact Handle.unread_of_exports hu
      · rcases check_in_history hs hm with he | ⟨-, a, ha⟩
        · exact he
        · exact absurd ha (hnever out hm a)
      · obtain ⟨hmem, hok⟩ := (not_neverChecked_iff hs).1 hsome
        obtain ⟨e, he⟩ := hfail hmem
        exact nomatch hok.symm.trans he
    · obtain ⟨table, ht⟩ := Handle.check_ok hu hok
      refine ⟨(Handle.check.apply (freshHandle bytes intSize)).value, hh, by rw [ht]; rfl,
        by rw [ht]; rfl, by rw [ht]; rfl, fun hnever => ?_, fun _ => ⟨rfl, ?_, ?_⟩⟩
      · exact absurd hnever ((not_neverChecked_iff hs).2 ⟨hmem, hok⟩)
      · exact answer_check_again hh (Handle.checked_of_check_ok hok)
      · exact Handle.exists_answersFrom hu hok

end Session

end CallCircuit
