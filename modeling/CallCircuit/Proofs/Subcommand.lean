import CallCircuit.Proofs.Arguments
import CallCircuit.Proofs.CheckedCalls
import CallCircuit.Proofs.SingleCall

/-!
# The call subcommand

An invocation that asks for a call loads the handle of a file, builds the circuit of the call and
prints it. It ends in one of three ways, and which one it is depends on the arguments and the file
alone. A fourth way is left to arguments that no machine has room for.

* `callExit`: what comes of an invocation that asks for a call;
* `call_end_to_end`: which arguments and files lead to which exit code, and what is printed.
-/

namespace CallCircuit.CommandLine

open Wasm (File Handle)

section Exit

variable (i : Invocation) (file : File) (name : String) (inputs outputs : List UInt32)
  (slots : List Slot) (group : Option String)

/-- The handle of the file takes the call, whose slots are distinct. -/
structure Accepts (h : Handle) : Prop where
  loaded : (Handle.loadFile i.path file i.check i.intSize).1 = .ok h
  callable : Callable h name inputs outputs
  distinct : slots.Nodup

/-- What comes of an invocation that asks for a call. -/
inductive CallExit : Exit → Prop where
  | failed {report : Report} (refused : ∀ h, ¬ Accepts i file name inputs outputs slots h) :
      CallExit (.failed report)
  | overflow {h : Handle} (accepts : Accepts i file name inputs outputs slots h)
      (last : lastSlot ∈ slots) : CallExit .overflow
  | room {h : Handle} (narrow : ∀ width ∈ inputs ++ outputs, width ≤ h.intSize.bits)
      (large : 2 ^ 58 ≤ totalWidth (inputs ++ outputs)) : CallExit .capacity
  | printed {h : Handle} {text : String} (accepts : Accepts i file name inputs outputs slots h)
      (last : lastSlot ∉ slots)
      (reads : (Circuit.ofText text).1 = .ok (singleCircuit h name inputs outputs slots group)) :
      CallExit (.printed text)

end Exit

variable {i : Invocation} {file : File} {name : String} {inputs outputs : List UInt32}
  {slots : Option (List UInt64)} {group : Option String}

theorem callExit (file : File) (hf : Few inputs outputs slots)
    (hj : i.job = .call name inputs outputs slots group) :
    CallExit i file name inputs outputs (slotsOf slots) group (i.run file) := by
  rw [Invocation.run]
  cases hl : (Handle.loadFile i.path file i.check i.intSize).1 with
  | error e => exact .failed fun h ha => nomatch hl.symm.trans ha.loaded
  | ok h =>
    have hunique {h' : Handle} (ha : Accepts i file name inputs outputs (slotsOf slots) h') :
        h' = h := Except.ok.inj (ha.loaded.symm.trans hl)
    have ho := singleCallOutcome h name group hf
    dsimp only
    rw [hj, Job.run, callResult]
    generalize ((singleCall h name inputs outputs slots group).apply {}).result = result at ho ⊢
    generalize ((singleCall h name inputs outputs slots group).apply {}).value = c at ho ⊢
    cases ho with
    | tooWide mem wide =>
      refine .failed fun h' ha => ?_
      cases hunique ha
      exact absurd wide (UInt32.not_lt.2 (ha.callable.narrow _ mem))
    | room narrow large => exact .room narrow large
    | notFound missing =>
      refine .failed fun h' ha => ?_
      cases hunique ha
      exact missing ha.callable.accepts
    | repeatedSlot repeated => exact .failed fun h' ha => repeated ha.distinct
    | overflow callable distinct last => exact .overflow ⟨hl, callable, distinct⟩ last
    | built callable roomy distinct last =>
      exact .printed ⟨hl, callable, distinct⟩ last
        (reads_back_singleCircuit hf callable roomy distinct last)

theorem CallExit.code_eq_zero_iff {slots : List Slot} {out : Exit}
    (ho : CallExit i file name inputs outputs slots group out) (hr : out ≠ .capacity) :
    out.code = 0 ↔ (∃ h, Accepts i file name inputs outputs slots h) ∧ lastSlot ∉ slots := by
  cases ho with
  | failed refused => simp [Exit.code, refused]
  | overflow accepts last => simp [Exit.code, last]
  | room => exact absurd rfl hr
  | printed accepts last => simp [Exit.code, last, Exists.intro _ accepts]

theorem CallExit.code_eq_101_iff {slots : List Slot} {out : Exit}
    (ho : CallExit i file name inputs outputs slots group out) (hr : out ≠ .capacity) :
    out.code = 101 ↔ (∃ h, Accepts i file name inputs outputs slots h) ∧ lastSlot ∈ slots := by
  cases ho with
  | failed refused => simp [Exit.code, refused]
  | overflow accepts last => simp [Exit.code, last, Exists.intro _ accepts]
  | room => exact absurd rfl hr
  | printed accepts last => simp [Exit.code, last]

theorem CallExit.code_eq_one_iff {slots : List Slot} {out : Exit}
    (ho : CallExit i file name inputs outputs slots group out) (hr : out ≠ .capacity) :
    out.code = 1 ↔ ∀ h, ¬ Accepts i file name inputs outputs slots h := by
  cases ho with
  | failed refused => simp [Exit.code, refused]
  | overflow accepts last => simp [Exit.code, Exists.intro _ accepts]
  | room => exact absurd rfl hr
  | printed accepts last => simp [Exit.code, Exists.intro _ accepts]

/-- The bits of a call that there is no room for take many variables. -/
theorem CallExit.length_of_capacity {slots : List Slot}
    (ho : CallExit i file name inputs outputs slots group .capacity) :
    2 ^ 52 ≤ inputs.length + outputs.length := by
  cases ho with
  | room narrow large =>
    have ht := totalWidth_le_mul narrow
    omega

/-- Arguments that ask for a call lead to a printed circuit exactly when the handle of the file takes
the call, no slot is repeated and the state register can cover the slots. If only the last of this is
not so, the program overflows, and else it fails. It never fails on account of the number of bits or
of a bit that is unknown or repeated. What is printed reads back as a circuit of the single call.

No machine has room for arguments of `2 ^ 57` characters; in shorter ones there are not so many
variables that their bits overflow a word. There can only be no room for a list of the bits when the
arguments have `2 ^ 52` characters, which is as far out of reach. -/
theorem call_end_to_end {args : List String} (hroom : argumentSize args < 2 ^ 57)
    (hp : parse args = .ok i) (hj : i.job = .call name inputs outputs slots group) (file : File) :
    (i.run file = .capacity → 2 ^ 52 ≤ argumentSize args) ∧
    (i.run file ≠ .capacity →
      ((i.run file).code = 0 ↔
        (∃ h, Accepts i file name inputs outputs (slotsOf slots) h) ∧ lastSlot ∉ slotsOf slots) ∧
      ((i.run file).code = 101 ↔
        (∃ h, Accepts i file name inputs outputs (slotsOf slots) h) ∧ lastSlot ∈ slotsOf slots) ∧
      ((i.run file).code = 1 ↔ ∀ h, ¬ Accepts i file name inputs outputs (slotsOf slots) h)) ∧
    (∀ h e, (Handle.loadFile i.path file i.check i.intSize).1 = .ok h →
      ((singleCall h name inputs outputs slots group).apply {}).result = .error (.refused e) →
        (∃ width, e = .invalidArgument width h.intSize.bits) ∨ e = .functionNotFound name h.uid ∨
          ∃ s, e = .duplicateArgument (.slot s)) ∧
    ∀ text, i.run file = .printed text → ∃ h c,
      Accepts i file name inputs outputs (slotsOf slots) h ∧ (Circuit.ofText text).1 = .ok c ∧
        IsSingleCall c h name inputs outputs (slotsOf slots) group := by
  obtain ⟨hcount, hne⟩ := call_of_parse hp hj
  have hf : Few inputs outputs slots := by
    rw [Few, slotsOf, List.length_map]
    cases slots with
    | none =>
      show inputs.length + outputs.length + 1 ≤ 2 ^ 57
      omega
    | some indices => exact Nat.le_of_lt (Nat.lt_of_le_of_lt hcount hroom)
  have ho := callExit file hf hj
  refine ⟨fun hc => ?_, fun hr => ⟨ho.code_eq_zero_iff hr, ho.code_eq_101_iff hr,
    ho.code_eq_one_iff hr⟩, fun h e _ he => ?_, fun text ht => ?_⟩
  · rw [hc] at ho
    have hlength := ho.length_of_capacity
    omega
  · have hs := singleCallOutcome h name group hf
    rw [he] at hs
    cases hs with
    | tooWide mem wide => exact .inl ⟨_, rfl⟩
    | notFound missing => exact .inr (.inl rfl)
    | repeatedSlot repeated => exact .inr (.inr ⟨_, rfl⟩)
  · rw [ht] at ho
    cases ho with
    | @printed h _ accepts last reads =>
      exact ⟨h, _, accepts, reads, isSingleCall_singleCircuit hf hne accepts.callable.narrow last⟩

/-- What the arguments of `smallCall_printed` ask for. -/
def smallInvocation : Invocation where
  path := "m.wasm"
  intSize := 32
  check := true
  job := .call "f" [2] [32] (some [1, 0]) none

theorem smallCall_printed : (smallInvocation.run (.contents smallModule)).code = 0 := by
  have hp : parse ["call", "-w", "m.wasm", "-n", "f", "--widths-in", "2", "--widths-out=32",
      "--slots", "1,0"] = .ok smallInvocation := by decide +kernel
  have loaded : (Handle.loadFile "m.wasm" (.contents smallModule) true 32).1 = .ok smallHandle := by
    decide +kernel
  have narrow : ∀ width ∈ [2] ++ [32], width ≤ smallHandle.intSize.bits := by
    intro width hm
    rcases List.mem_pair.1 hm with rfl | rfl <;> decide
  have callable : Callable smallHandle "f" [2] [32] := ⟨narrow, by decide +kernel⟩
  have ends := call_end_to_end (by decide) hp rfl (.contents smallModule)
  have roomy : smallInvocation.run (.contents smallModule) ≠ .capacity :=
    fun hc => absurd (ends.1 hc) (by decide)
  exact (ends.2.1 roomy).1.2 ⟨⟨smallHandle, loaded, callable, by decide⟩, by decide⟩

end CallCircuit.CommandLine
