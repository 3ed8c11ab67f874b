import CallCircuit.CommandLine.Run
import CallCircuit.Proofs.Documents
import CallCircuit.Proofs.RegisterTable

/-!
# The circuit of a single call

The program builds a circuit with one register and calls a function on all of its bits. The bits are
made to measure, so of all that can be wrong with a call only the widths, the function and the slots
are left, once there is room for the bits. The text of the circuit is printed with a line break behind
it, and reads back with it.

* `defaultCircuit_eq`: the circuit that the call is added to;
* `Circuit.Sound.reads_back_line`: a sound circuit reads back from a line of its own;
* `singleChangeOutcome`, `singleCallOutcome`: what comes of building the circuit of a single call;
* `reads_back_singleCircuit`, `isSingleCall_singleCircuit`: what is printed of it.
-/

namespace CallCircuit

open Edit
open Wasm (Handle)

/-! ## The circuit before the call -/

/-- The circuit with this many bits in the default register. -/
def defaultCircuit (bitCount : UInt64) : Circuit := ((pushDefaultRegister bitCount).apply {}).value

theorem isSource_defaultCircuit (bitCount : UInt64) : (defaultCircuit bitCount).IsSource :=
  .withBits bitCount

section Fits

variable {bitCount : UInt64}

theorem defaultCircuit_eq (hf : Register.Fits ⟨defaultRegister, bitCount⟩) :
    defaultCircuit bitCount = {
      registers := if bitCount = 0 then [] else [⟨defaultRegister, bitCount⟩]
      bits := Register.bits ⟨defaultRegister, bitCount⟩ } := by
  rw [defaultCircuit, (pushDefaultRegister_yields bitCount {}).apply, if_pos hf]
  by_cases h : bitCount = 0
  · rw [if_pos h, if_pos h, h]
    rfl
  · rw [if_neg h, if_neg h]
    rfl

theorem yields_defaultCircuit (hf : Register.Fits ⟨defaultRegister, bitCount⟩) :
    ∃ t, (pushDefaultRegister bitCount).Yields {} ⟨.ok (), defaultCircuit bitCount, t⟩ := by
  have hp := pushDefaultRegister_yields bitCount {}
  rw [defaultCircuit, hp.apply]
  rw [if_pos hf] at hp ⊢
  by_cases h : bitCount = 0
  · rw [if_pos h] at hp ⊢
    exact ⟨_, hp⟩
  · rw [if_neg h] at hp ⊢
    exact ⟨_, hp⟩

theorem pushDefaultRegister_yields_capacity (hf : ¬ Register.Fits ⟨defaultRegister, bitCount⟩) :
    ∃ t, (pushDefaultRegister bitCount).Yields {} ⟨.error .capacity, {}, t⟩ := by
  have hp := pushDefaultRegister_yields bitCount {}
  have h : bitCount ≠ 0 := by
    rintro rfl
    exact hf (by decide)
  rw [if_neg h, if_neg hf] at hp
  exact ⟨_, hp⟩

theorem length_bits_defaultCircuit (hf : Register.Fits ⟨defaultRegister, bitCount⟩) :
    (defaultCircuit bitCount).bits.length = bitCount.toNat := by
  rw [defaultCircuit_eq hf]
  exact Register.length_bits _

end Fits

/-- The bits of the circuit are known to it, and each occurs once. -/
theorem spotless_defaultCircuit (bitCount : UInt64) :
    Spotless (BadBit (·.LiesIn (defaultCircuit bitCount).registers))
      (defaultCircuit bitCount).bits := by
  have ht := (isSource_defaultCircuit bitCount).tableAgrees
  exact spotless_badBit_iff.2 ⟨fun b => ht.mem_bits_iff.1, ht.nodup_bits⟩

/-! ## The printed text -/

theorem Json.read?_line (layout : Layout) {j : Json} (h : j.isPlain = true) :
    read? (j.write layout ++ "\n") = some (j, []) := by
  have hr : Token.Written [] ['\n'] := .blank (by decide) .nil
  have hw := written_writeAt layout 0 j h hr
  rw [List.append_nil] at hw
  refine read?_of_written ?_
  rw [String.toList_append, Json.write, String.toList_ofList]
  exact hw

/-- A sound circuit whose operations have room reads back from its text on a line of its own. -/
theorem Circuit.Sound.reads_back_line {c : Circuit} (h : c.Sound) (hn : Nests c.commands) :
    (Circuit.ofText (c.toText ++ "\n")).1 = .ok c := by
  have hr : Circuit.ofText (c.toText ++ "\n") = c.description.reading :=
    ofText_eq_reading (Json.read?_line .indented c.isPlain_toJson) (Description.ofJson?_toJson hn)
  rw [hr, ← Circuit.reading_of_toText hn]
  exact h.reads_back hn

/-! ## Building the circuit -/

namespace CommandLine

section Building

variable {h : Handle} {name : String} {inputs outputs : List UInt32} {slots : Option (List UInt64)}
  {group : Option String}

/-- The slots of a call, which is slot 0 when none are given. -/
def slotsOf (slots : Option (List UInt64)) : List Slot := (slots.getD [0]).map Slot.mk

theorem getD_defaultSlots (slots : Option (List UInt64)) :
    (slots.map (·.map Slot.mk)).getD defaultSlots = slotsOf slots := by
  cases slots <;> rfl

/-- How many bits a call is on. -/
def callWidth (inputs outputs : List UInt32) : UInt64 := .ofNat (totalWidth (inputs ++ outputs))

theorem totalWidth_le_of_narrow {widths : List UInt32} {bits : UInt32}
    (hn : ∀ width ∈ widths, width ≤ bits) : totalWidth widths ≤ widths.length * bits.toNat := by
  induction widths with
  | nil => exact Nat.zero_le _
  | cons width widths ih =>
    have hw := UInt32.le_iff_toNat_le.1 (hn width List.mem_cons_self)
    have htail := ih fun width' hm => hn width' (List.mem_cons_of_mem width hm)
    rw [totalWidth_cons, List.length_cons, Nat.succ_mul]
    omega

theorem totalWidth_le_mul (hn : ∀ width ∈ inputs ++ outputs, width ≤ h.intSize.bits) :
    totalWidth (inputs ++ outputs) ≤ (inputs.length + outputs.length) * 64 := by
  have hb : h.intSize.bits.toNat ≤ 64 := by cases h.intSize <;> decide
  rw [← List.length_append]
  exact Nat.le_trans (totalWidth_le_of_narrow hn) (Nat.mul_le_mul_left _ hb)

/-- There are so few variables and slots that, in case they are narrow, a word counts all of their
bits. -/
def Few (inputs outputs : List UInt32) (slots : Option (List UInt64)) : Prop :=
  inputs.length + outputs.length + (slotsOf slots).length ≤ 2 ^ 57

/-- The function can be called: all variables are narrow enough, and the module has the function. -/
structure Callable (h : Handle) (name : String) (inputs outputs : List UInt32) : Prop where
  narrow : ∀ width ∈ inputs ++ outputs, width ≤ h.intSize.bits
  accepts : h.accepts name ⟨inputs.length, outputs.length⟩ = true

/-- The bits and slots of a few narrow variables can be counted. -/
theorem total_lt (hf : Few inputs outputs slots)
    (hn : ∀ width ∈ inputs ++ outputs, width ≤ h.intSize.bits) :
    totalWidth (inputs ++ outputs) + (slotsOf slots).length < UInt64.size := by
  have ht := totalWidth_le_mul hn
  rw [Few] at hf
  rw [UInt64.size]
  omega

theorem toNat_callWidth (hf : Few inputs outputs slots)
    (hn : ∀ width ∈ inputs ++ outputs, width ≤ h.intSize.bits) :
    (callWidth inputs outputs).toNat = totalWidth (inputs ++ outputs) :=
  UInt64.toNat_ofNat_of_lt' (Nat.lt_of_le_of_lt (Nat.le_add_right _ _) (total_lt hf hn))

/-- There is room for the bits of a few narrow variables if there are fewer than 2⁵⁸. -/
theorem fits_callWidth_iff (hf : Few inputs outputs slots)
    (hn : ∀ width ∈ inputs ++ outputs, width ≤ h.intSize.bits) :
    Register.Fits ⟨defaultRegister, callWidth inputs outputs⟩ ↔
      totalWidth (inputs ++ outputs) < 2 ^ 58 := by
  rw [Register.fits_iff, toNat_callWidth hf hn]

/-- The call as a change of the circuit that is made for it. -/
def singleChange (h : Handle) (name : String) (inputs outputs : List UInt32)
    (slots : Option (List UInt64)) (group : Option String) : Change :=
  .addCall name h inputs outputs (defaultCircuit (callWidth inputs outputs)).bits
    (slots.map (·.map Slot.mk)) { group }

theorem proper_singleChange (hf : Few inputs outputs slots)
    (hn : ∀ width ∈ inputs ++ outputs, width ≤ h.intSize.bits)
    (hr : totalWidth (inputs ++ outputs) < 2 ^ 58) :
    (singleChange h name inputs outputs slots group).Proper := by
  have ht := total_lt hf hn
  have hl := length_bits_defaultCircuit ((fits_callWidth_iff hf hn).2 hr)
  rw [toNat_callWidth hf hn] at hl
  rw [Few] at hf
  have hs : 2 ^ 57 < UInt64.size := by decide
  refine ⟨?_, ?_, fun guard hg => ?_⟩
  · show inputs.length < UInt64.size
    omega
  · show outputs.length < UInt64.size
    omega
  · cases hg
    rw [Placement.args_length]
    show (defaultCircuit (callWidth inputs outputs)).bits.length +
      ((slots.map (·.map Slot.mk)).getD defaultSlots).length < UInt64.size
    rw [hl, getD_defaultSlots]
    exact ht

theorem yields_singleChange (h : Handle) (name : String) (inputs outputs : List UInt32)
    (slots : Option (List UInt64)) (group : Option String) :
    ∃ out, (singleChange h name inputs outputs slots group).edit.Yields
      (defaultCircuit (callWidth inputs outputs)) out := by
  generalize hc : defaultCircuit (callWidth inputs outputs) = c
  rw [singleChange, Change.edit, hc]
  have ha := addCall_yields name h inputs outputs c.bits (slots.map (·.map Slot.mk)) { group } c
  dsimp only at ha
  exact ⟨_, ha⟩

/-- Past the check of the widths, the call is added to the circuit that is made for it, unless there is
no room for its bits. -/
theorem singleCall_apply (h : Handle) (name : String) (inputs outputs : List UInt32)
    (slots : Option (List UInt64)) (group : Option String) :
    ∃ out, (singleCall h name inputs outputs slots group).apply {} =
        .ofCheck {} (Failure.lift (checkWidths inputs outputs h.intSize.bits)) (fun _ => out) ∧
      if Register.Fits ⟨defaultRegister, callWidth inputs outputs⟩ then
        ((singleChange h name inputs outputs slots group).edit.apply
            (defaultCircuit (callWidth inputs outputs))).result = out.result ∧
          ((singleChange h name inputs outputs slots group).edit.apply
            (defaultCircuit (callWidth inputs outputs))).value = out.value
      else out.result = .error .capacity := by
  by_cases hr : Register.Fits ⟨defaultRegister, callWidth inputs outputs⟩
  · obtain ⟨t, hp⟩ := yields_defaultCircuit hr
    obtain ⟨out, ho⟩ := yields_singleChange h name inputs outputs slots group
    refine ⟨⟨out.result, out.value, t ++ out.trail⟩,
      Update.Yields.apply (checked_bind_yields fun _ trail => ?_), ?_⟩
    · have hp' := hp trail
      unfold callWidth at hp'
      rw [Update.resume_bind, hp']
      dsimp only
      rw [Update.resume_bind, Update.resume_current, ← List.append_assoc]
      exact ho _
    · rw [if_pos hr, ho.apply]
      exact ⟨rfl, rfl⟩
  · obtain ⟨t, hp⟩ := pushDefaultRegister_yields_capacity hr
    exact ⟨_, Update.Yields.apply (checked_bind_yields fun _ => hp.bind_error), by rw [if_neg hr]⟩

section Outcome

variable (h : Handle) (name : String) (inputs outputs : List UInt32) (slots : List Slot)
  (group : Option String)

/-- The circuit of a single call. -/
def singleCircuit : Circuit where
  registers :=
    if callWidth inputs outputs = 0 then [] else [⟨defaultRegister, callWidth inputs outputs⟩]
  bits := Register.bits ⟨defaultRegister, callWidth inputs outputs⟩
  slotCount := .ofNat (slotBound 0 slots)
  commands := [{
    op := .call (.ofWidths name h.uid inputs outputs (.ofNat slots.length))
    args := (Register.bits ⟨defaultRegister, callWidth inputs outputs⟩).map .bit ++ slots.map .slot
    group }]

/-- What comes of building the circuit of a single call. The refusals of bits that there are for other
calls do not occur, but there may be no room for the bits. -/
inductive SingleCallOutcome : Except Failure Unit → Circuit → Prop where
  | tooWide {width : UInt32} {c : Circuit} (mem : width ∈ inputs ++ outputs)
      (wide : h.intSize.bits < width) :
      SingleCallOutcome (.error (.refused (.invalidArgument width h.intSize.bits))) c
  | room {c : Circuit} (narrow : ∀ width ∈ inputs ++ outputs, width ≤ h.intSize.bits)
      (large : 2 ^ 58 ≤ totalWidth (inputs ++ outputs)) : SingleCallOutcome (.error .capacity) c
  | notFound {c : Circuit} (missing : ¬ h.accepts name ⟨inputs.length, outputs.length⟩ = true) :
      SingleCallOutcome (.error (.refused (.functionNotFound name h.uid))) c
  | repeatedSlot {s : Slot} {c : Circuit} (repeated : ¬ slots.Nodup) :
      SingleCallOutcome (.error (.refused (.duplicateArgument (.slot s)))) c
  | overflow {c : Circuit} (callable : Callable h name inputs outputs) (distinct : slots.Nodup)
      (last : lastSlot ∈ slots) : SingleCallOutcome (.error .overflow) c
  | built (callable : Callable h name inputs outputs)
      (roomy : totalWidth (inputs ++ outputs) < 2 ^ 58) (distinct : slots.Nodup)
      (last : lastSlot ∉ slots) :
      SingleCallOutcome (.ok ()) (singleCircuit h name inputs outputs slots group)

end Outcome

/-- What comes of the change, once the widths have been checked and there is room for the bits. -/
theorem singleChangeOutcome (name : String) (group : Option String)
    (hf : Few inputs outputs slots) (hn : ∀ width ∈ inputs ++ outputs, width ≤ h.intSize.bits)
    (hr : totalWidth (inputs ++ outputs) < 2 ^ 58) :
    SingleCallOutcome h name inputs outputs (slotsOf slots) group
      ((singleChange h name inputs outputs slots group).edit.apply
        (defaultCircuit (callWidth inputs outputs))).result
      ((singleChange h name inputs outputs slots group).edit.apply
        (defaultCircuit (callWidth inputs outputs))).value := by
  have hnames := (isSource_defaultCircuit (callWidth inputs outputs)).tableAgrees.names
  have hspotless := spotless_defaultCircuit (callWidth inputs outputs)
  have hfits := (fits_callWidth_iff hf hn).2 hr
  rw [singleChange, Change.edit]
  generalize hresult : (Update.apply _ _).result = result
  generalize hvalue : (Update.apply _ _).value = c
  have ho := (addCall_iff hnames).1 ⟨hresult, hvalue⟩
  rw [getD_defaultSlots] at ho
  cases ho with
  | tooWide first =>
    obtain ⟨-, wide, after, he⟩ := first
    exact .tooWide (he ▸ List.mem_append_right _ List.mem_cons_self) wide
  | notFound narrow missing => exact .notFound fun ha => missing (accepts_iff.1 ha)
  | miscounted narrow found count =>
    -- there are as many bits as the widths add up to
    rw [length_bits_defaultCircuit hfits, toNat_callWidth hf hn] at count
    exact absurd rfl count
  | options agrees guard_eq => cases guard_eq
  | room agrees overfills =>
    obtain ⟨condition, given, -⟩ := overfills
    cases given
  | units agrees guard_eq fault =>
    cases guard_eq
    cases fault with
    | unknownBit first unknown => exact absurd hspotless first.not_spotless
    | repeatedBit first known => exact absurd hspotless first.not_spotless
    | repeatedSlot bits_fit first =>
      exact .repeatedSlot fun hd => first.not_spotless (spotless_iff_nodup.2 hd)
  | overflow agrees guard_eq fit last =>
    exact .overflow ⟨agrees.narrow, accepts_iff.2 agrees.found⟩ fit.slots_nodup last
  | added agrees guard_eq fit last =>
    cases guard_eq
    rw [defaultCircuit_eq hfits]
    exact .built ⟨agrees.narrow, accepts_iff.2 agrees.found⟩ hr fit.slots_nodup last

theorem singleCallOutcome (h : Handle) (name : String) (group : Option String)
    (hf : Few inputs outputs slots) :
    SingleCallOutcome h name inputs outputs (slotsOf slots) group
      ((singleCall h name inputs outputs slots group).apply {}).result
      ((singleCall h name inputs outputs slots group).apply {}).value := by
  obtain ⟨out, hs, ho⟩ := singleCall_apply h name inputs outputs slots group
  have hw := verdict_checkWidths inputs outputs h.intSize.bits
  rw [hs]
  cases hc : checkWidths inputs outputs h.intSize.bits with
  | error e =>
    obtain ⟨before, width, first, rfl⟩ := (hw.error_iff e).1 hc
    obtain ⟨-, wide, after, he⟩ := first
    exact .tooWide (he ▸ List.mem_append_right before List.mem_cons_self) wide
  | ok u =>
    have hn := (hw.ok_iff u).1 hc
    show SingleCallOutcome h name inputs outputs (slotsOf slots) group out.result out.value
    by_cases hr : totalWidth (inputs ++ outputs) < 2 ^ 58
    · rw [if_pos ((fits_callWidth_iff hf hn).2 hr)] at ho
      rw [← ho.1, ← ho.2]
      exact singleChangeOutcome name group hf hn hr
    · rw [if_neg fun hfits => hr ((fits_callWidth_iff hf hn).1 hfits)] at ho
      rw [ho]
      exact .room hn (Nat.not_lt.1 hr)

/-- A call of which nothing is wrong leads to the circuit of a single call. -/
theorem value_singleChange (hf : Few inputs outputs slots) (hc : Callable h name inputs outputs)
    (hr : totalWidth (inputs ++ outputs) < 2 ^ 58) (hd : (slotsOf slots).Nodup)
    (hl : lastSlot ∉ slotsOf slots) :
    ((singleChange h name inputs outputs slots group).edit.apply
      (defaultCircuit (callWidth inputs outputs))).value =
        singleCircuit h name inputs outputs (slotsOf slots) group := by
  have ho := singleChangeOutcome name group hf hc.narrow hr
  generalize (Update.apply _ _).result = result at ho
  generalize (Update.apply _ _).value = c at ho ⊢
  cases ho with
  | tooWide mem wide => exact absurd wide (UInt32.not_lt.2 (hc.narrow _ mem))
  | room narrow large => exact absurd hr (Nat.not_lt.2 large)
  | notFound missing => exact absurd hc.accepts missing
  | repeatedSlot repeated => exact absurd hd repeated
  | overflow _ _ last => exact absurd last hl
  | built => rfl

/-- The circuit that has been built reads back from the line that is printed. -/
theorem reads_back_singleCircuit (hf : Few inputs outputs slots)
    (hc : Callable h name inputs outputs) (hr : totalWidth (inputs ++ outputs) < 2 ^ 58)
    (hd : (slotsOf slots).Nodup) (hl : lastSlot ∉ slotsOf slots) :
    (Circuit.ofText
      ((singleCircuit h name inputs outputs (slotsOf slots) group).toText ++ "\n")).1 =
        .ok (singleCircuit h name inputs outputs (slotsOf slots) group) := by
  have hsource := isSource_defaultCircuit (callWidth inputs outputs)
  have hmakes := (singleChange h name inputs outputs slots group).makes
    (defaultCircuit (callWidth inputs outputs))
  rw [value_singleChange hf hc hr hd hl] at hmakes
  have hsound := hmakes.sound (proper_singleChange hf hc.narrow hr) hsource.sound
  exact hsound.reads_back_line (hmakes.nests hsource.nests)

/-- The circuit has a register of a bit for each place of the variables, if there is any, and a single
command that calls the function on all of the bits and then on the slots. -/
structure IsSingleCall (c : Circuit) (h : Handle) (name : String) (inputs outputs : List UInt32)
    (slots : List Slot) (group : Option String) : Prop where
  unnamed : c.name = none
  countable : totalWidth (inputs ++ outputs) < UInt64.size
  registers : c.registers =
    if totalWidth (inputs ++ outputs) = 0 then []
    else [⟨defaultRegister, .ofNat (totalWidth (inputs ++ outputs))⟩]
  slotCount : ∃ last ∈ slots, (∀ s ∈ slots, s.index ≤ last.index) ∧
    c.slotCount.toNat = last.index.toNat + 1
  bits : c.bits = (List.range (totalWidth (inputs ++ outputs))).map
    fun i => ⟨defaultRegister, .ofNat i⟩
  commands : c.commands = [{
    op := .call (.ofWidths name h.uid inputs outputs (.ofNat slots.length))
    args := (List.range (totalWidth (inputs ++ outputs))).map
        (fun i => .bit ⟨defaultRegister, .ofNat i⟩) ++ slots.map .slot
    group }]

/-- The state register is as large as the greatest slot asks for. -/
theorem exists_last {slots : List Slot} (hne : slots ≠ []) :
    ∃ last ∈ slots, (∀ s ∈ slots, s.index ≤ last.index) ∧
      slotBound 0 slots = last.index.toNat + 1 := by
  obtain ⟨last, hm, hb⟩ : ∃ last ∈ slots, slotBound 0 slots = last.index.toNat + 1 := by
    by_contra hnone
    -- else one slot less would do
    have hle : slotBound 0 slots ≤ slotBound 0 slots - 1 := by
      refine slotBound_le_iff.2 ⟨Nat.zero_le _, fun s hs => ?_⟩
      have hlt : s.index.toNat < slotBound 0 slots := index_lt_slotBound hs
      have hne : slotBound 0 slots ≠ s.index.toNat + 1 := fun he => hnone ⟨s, hs, he⟩
      omega
    obtain ⟨s, hs⟩ := List.exists_mem_of_ne_nil slots hne
    have hlt : s.index.toNat < slotBound 0 slots := index_lt_slotBound hs
    omega
  refine ⟨last, hm, fun s hs => UInt64.le_iff_toNat_le.2 ?_, hb⟩
  have hlt : s.index.toNat < slotBound 0 slots := index_lt_slotBound hs
  omega

theorem isSingleCall_singleCircuit (hf : Few inputs outputs slots) (hne : slots ≠ some [])
    (hn : ∀ width ∈ inputs ++ outputs, width ≤ h.intSize.bits) (hl : lastSlot ∉ slotsOf slots) :
    IsSingleCall (singleCircuit h name inputs outputs (slotsOf slots) group) h name inputs outputs
      (slotsOf slots) group := by
  have hne' : slotsOf slots ≠ [] := by
    cases slots with
    | none => exact nofun
    | some indices => exact fun he => hne (congrArg some (List.map_eq_nil_iff.1 he))
  have hw : totalWidth (inputs ++ outputs) < UInt64.size :=
    Nat.lt_of_le_of_lt (Nat.le_add_right _ _) (total_lt hf hn)
  obtain ⟨last, hm, hmax, hb⟩ := exists_last hne'
  refine ⟨rfl, hw, ?_, ⟨last, hm, hmax, ?_⟩, ?_, ?_⟩
  · have hzero : callWidth inputs outputs = 0 ↔ totalWidth (inputs ++ outputs) = 0 := by
      rw [← UInt64.toNat_inj, toNat_callWidth hf hn]
      rfl
    simp only [singleCircuit, hzero]
    rfl
  · rw [← hb]
    exact UInt64.toNat_ofNat_of_lt' (slotBound_lt_size_iff.2 hl)
  · simp only [singleCircuit, Register.bits, toNat_callWidth hf hn]
  · simp only [singleCircuit, Register.bits, toNat_callWidth hf hn, List.map_map]
    rfl

end Building

end CommandLine

end CallCircuit
