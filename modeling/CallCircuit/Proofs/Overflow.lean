import CallCircuit.Proofs.Documents

/-!
# Sums that leave the range of a word

Reading a circuit calculates with numbers that the text is free to choose. `checkCommandInWords` is
the check of a command with every step that calculates carried out in words, so that it says which
step has no word for its result. For what has been read, only the last sum can be such a step: the
bits of an operation are bounded by its widths and by the depth of a document, but its slots
are not. Besides, a text can name a register with more bits than there can be room for, which ends
the reading before any command is looked at.

* `checkInWords_eq`, `bitCountInWords_eq`: the steps on an operation;
* `Operation.bitTotal_lt_size`: the bits of an operation that has been read are a word;
* `checkCommandInWords_eq`: so the check in words is the check, where an overflow is the last sum;
* `Circuit.ofText_overflows_exactly`: which texts come to an overflow, or to more bits than there is
  room for;
* `vastText_unanswered`: a text without commands that is neither read nor refused.
-/

namespace CallCircuit

/-! ## Steps that calculate -/

/-- The steps in the check of a command that calculate with words. -/
inductive WordStep where
  /-- The value of a condition is shifted by its width. -/
  | shift
  /-- A width of a call is added to those before it. -/
  | widthSum
  /-- The width of a condition is added to the bits inside the condition. -/
  | bitSum
  /-- The slots are added to the bits. -/
  | argumentSum
  /-- The bits are taken away again, which leaves the slots. -/
  | slotDifference

/-- Why the check of a command in words does not accept it. -/
inductive Halt where
  | refused (error : CircuitError)
  /-- The step has no word for its result. -/
  | outOfRange (step : WordStep)
  /-- There is no room for a list. -/
  | noRoom

/-- What a failure of the check is in words: an overflow is that of the last sum. -/
def Halt.ofFailure : Failure → Halt
  | .refused e => .refused e
  | .overflow => .outOfRange .argumentSum
  | .capacity => .noRoom

/-- Goes on with the word that a step results in. -/
def WordStep.result (step : WordStep) : Option UInt64 → Except Halt UInt64
  | some n => .ok n
  | none => .error (.outOfRange step)

/-- A word shifted to the right, `none` when no bit could be left. -/
def checkedShift (value distance : UInt64) : Option UInt64 :=
  if distance.toNat < 64 then some (value >>> distance) else none

/-- The difference of two words, `none` when it would be negative. -/
def checkedSub (a b : UInt64) : Option UInt64 := if b ≤ a then some (a - b) else none

/-- Whether a condition of this width can hold the value. The shift is only made when the answer
depends on it. -/
def fitsWidthInWords (value width : UInt64) : Except Halt Bool :=
  if width ≤ 64 then
    if width = 64 then .ok true
    else do return (← WordStep.shift.result (checkedShift value width)) == 0
  else .ok false

/-- The widths added up one after the other. -/
def sumInWords (total : UInt64) : List UInt32 → Except Halt UInt64
  | [] => .ok total
  | width :: widths => do
    sumInWords (← WordStep.widthSum.result (checkedAdd total width.toUInt64)) widths

namespace Operation

/-- `check` with each step in words. -/
def checkInWords : Operation → Except Halt Unit
  | .call c => do
    let total ← sumInWords 0 (c.inputWidths ++ c.outputWidths)
    if c.inputCount.toNat = c.inputWidths.length ∧ c.outputCount.toNat = c.outputWidths.length ∧
        c.bitCount = total then .ok ()
    else .error (.refused (.inconsistent (.counts c)))
  | .conditional op width value => do
    if ← fitsWidthInWords value width then op.checkInWords
    else .error (.refused (.conditionOutOfRange value width.toNat))

/-- `bitCount?` with each step in words. -/
def bitCountInWords : Operation → Except Halt UInt64
  | .call c => .ok c.bitCount
  | .conditional op width _ => do
    WordStep.bitSum.result (checkedAdd width (← op.bitCountInWords))

end Operation

/-- `checkCommand` with each step in words. The difference is that of the room for slots. -/
def Circuit.checkCommandInWords (c : Circuit) (command : Command) : Except Halt Unit := do
  let op := command.op
  op.checkInWords
  let bitCount ← op.bitCountInWords
  let expected ← WordStep.argumentSum.result (checkedAdd bitCount op.slotCount)
  if command.args.length ≠ expected.toNat then
    throw (.refused (.inconsistent (.argumentCount op expected command.args.length)))
  discard <| WordStep.slotDifference.result (checkedSub expected bitCount)
  let (bits, slots) ← (splitOperands op bitCount.toNat command.args).mapError .refused
  (c.checkOperands bits slots).mapError .ofFailure

/-! ## Steps on an operation -/

theorem fitsWidthInWords_eq (value width : UInt64) :
    fitsWidthInWords value width = .ok (fitsWidth value width.toNat) := by
  have hle : width ≤ 64 ↔ width.toNat ≤ 64 := UInt64.le_iff_toNat_le
  have heq : width = 64 ↔ width.toNat = 64 := UInt64.toNat_inj.symm
  unfold fitsWidthInWords fitsWidth maxConditionWidth
  by_cases h : width.toNat ≤ 64
  · by_cases h64 : width.toNat = 64
    · simp [hle, heq, h64]
    · have hs : checkedShift value width = some (value >>> width) := if_pos (by omega)
      simp [hle, heq, h, h64, hs, WordStep.result]
  · simp [hle, h]

theorem sumInWords_eq (total : UInt64) (widths : List UInt32)
    (h : total.toNat + totalWidth widths < UInt64.size) :
    sumInWords total widths = .ok (.ofNat (total.toNat + totalWidth widths)) := by
  induction widths generalizing total with
  | nil => simp [sumInWords, totalWidth]
  | cons width widths ih =>
    rw [totalWidth_cons] at h ⊢
    have hw : checkedAdd total width.toUInt64 = some (total + width.toUInt64) := by
      rw [checkedAdd, UInt32.toNat_toUInt64, if_pos (by omega)]
    have hn : (total + width.toUInt64).toNat = total.toNat + width.toNat := by
      rw [UInt64.toNat_add, UInt32.toNat_toUInt64, Nat.mod_eq_of_lt]
      show _ < UInt64.size
      omega
    rw [sumInWords, hw, WordStep.result, ok_bind, ih _ (by omega), hn, Nat.add_assoc]

theorem totalWidth_le (widths : List UInt32) :
    totalWidth widths ≤ widths.length * (UInt32.size - 1) := by
  induction widths with
  | nil => exact Nat.zero_le _
  | cons width widths ih =>
    have := width.toNat_lt_size
    rw [totalWidth_cons, List.length_cons, Nat.succ_mul]
    omega

namespace ModuleCall

/-- How many variables the call has. -/
def widthCount (c : ModuleCall) : Nat := (c.inputWidths ++ c.outputWidths).length

/-- Fewer than 2³² widths add up to a number well below the size of a word. -/
theorem totalWidth_le_of_few {c : ModuleCall} (h : c.widthCount < 2 ^ 32) :
    totalWidth (c.inputWidths ++ c.outputWidths) ≤ (2 ^ 32 - 1) * (2 ^ 32 - 1) :=
  Nat.le_trans (totalWidth_le _) (Nat.mul_le_mul_right _ (Nat.le_sub_one_of_lt h))

end ModuleCall

namespace Operation

theorem checkInWords_eq {op : Operation} (h : op.innermost.widthCount < 2 ^ 32) :
    op.checkInWords = op.check.mapError .refused := by
  induction op with
  | call c =>
    have hlt : totalWidth (c.inputWidths ++ c.outputWidths) < UInt64.size :=
      Nat.lt_of_le_of_lt (ModuleCall.totalWidth_le_of_few h) (by decide)
    have hsum := sumInWords_eq 0 (c.inputWidths ++ c.outputWidths) (by simpa using hlt)
    have hbits : c.bitCount = .ofNat (totalWidth (c.inputWidths ++ c.outputWidths)) ↔
        c.bitCount.toNat = totalWidth (c.inputWidths ++ c.outputWidths) := by
      rw [← UInt64.toNat_inj, UInt64.toNat_ofNat_of_lt' hlt]
    rw [UInt64.toNat_zero, Nat.zero_add] at hsum
    rw [checkInWords, hsum, ok_bind, check]
    by_cases hc : c.countsAgree = true
    · have hm := (countsAgree_iff c).1 hc
      rw [if_pos ⟨hm.inputs, hm.outputs, hbits.2 hm.bits⟩, if_pos hc]
      rfl
    · rw [if_neg fun hx => hc ((countsAgree_iff c).2 ⟨hx.1, hx.2.1, hbits.1 hx.2.2⟩), if_neg hc]
      rfl
  | conditional op width value ih =>
    rw [checkInWords, fitsWidthInWords_eq, ok_bind, check, checkConditionValue, ih h]
    by_cases hf : fitsWidth value width.toNat <;> simp [hf, Except.mapError]

theorem bitCountInWords_eq (op : Operation) :
    op.bitCountInWords = WordStep.bitSum.result op.bitCount? := by
  induction op with
  | call c => rfl
  | conditional op width value ih =>
    rw [bitCountInWords, ih, bitCount?]
    cases op.bitCount? <;> rfl

theorem check_eq_ok_iff {op : Operation} : op.check = .ok () ↔ op.Consistent :=
  ((verdict_check op).ok_iff ()).trans spotless_badCondition_iff

theorem conditions_sum_le {op : Operation}
    (hc : ∀ condition ∈ op.conditions, Holds condition.1 condition.2) :
    (op.conditions.map (·.1.toNat)).sum ≤ op.layers * maxConditionWidth := by
  induction op with
  | call c => exact Nat.zero_le _
  | conditional op width value ih =>
    obtain ⟨⟨hw, -⟩, hc⟩ := List.forall_mem_cons.1 hc
    rw [conditions, List.map_cons, List.sum_cons, layers, Nat.succ_mul, Nat.add_comm]
    exact Nat.add_le_add (ih hc) hw

/-- The bits of a consistent operation with few widths and few layers are a word. -/
theorem bitTotal_lt_size {op : Operation} (hc : op.Consistent)
    (hw : op.innermost.widthCount < 2 ^ 32) (hl : op.layers + 2 ≤ Description.operationRoom) :
    op.bitTotal < UInt64.size := by
  have hconditions := conditions_sum_le hc.conditions
  have hcall : op.innermost.bitCount.toNat ≤ (2 ^ 32 - 1) * (2 ^ 32 - 1) :=
    hc.counts.bits ▸ ModuleCall.totalWidth_le_of_few hw
  rw [maxConditionWidth] at hconditions
  rw [Description.operationRoom, maxDepth] at hl
  rw [bitTotal, UInt64.size]
  omega

end Operation

/-! ## The check of a command -/

/-- On an operation with few widths and few layers, the check in words comes to what the check comes
to, and an overflow is that of the last sum. -/
theorem Circuit.checkCommandInWords_eq (c : Circuit) {command : Command}
    (hw : command.op.innermost.widthCount < 2 ^ 32)
    (hl : command.op.layers + 2 ≤ Description.operationRoom) :
    c.checkCommandInWords command = (c.checkCommand command).mapError .ofFailure := by
  rw [checkCommand_eq, checkCommandInWords, Operation.checkInWords_eq hw]
  cases hcheck : command.op.check with
  | error e => rfl
  | ok u =>
    have hb := Operation.bitTotal_lt_size (Operation.check_eq_ok_iff.1 hcheck) hw hl
    have htotal : command.op.argTotal = command.op.bitTotal + command.op.slotCount.toNat := rfl
    have hbits : command.op.bitCountInWords = .ok (.ofNat command.op.bitTotal) := by
      rw [Operation.bitCountInWords_eq, bitCount?_eq, if_pos hb]
      rfl
    have hexpected : checkedAdd (.ofNat command.op.bitTotal) command.op.slotCount =
        if command.op.argTotal < UInt64.size then some (.ofNat command.op.argTotal) else none := by
      rw [htotal, checkedAdd, UInt64.toNat_ofNat_of_lt' hb, UInt64.ofNat_add, UInt64.ofNat_toNat]
    rw [hbits, ok_bind, hexpected]
    by_cases ht : command.op.argTotal < UInt64.size
    · have hroom : checkedSub (.ofNat command.op.argTotal) (.ofNat command.op.bitTotal) =
          some (.ofNat command.op.argTotal - .ofNat command.op.bitTotal) := by
        rw [checkedSub, if_pos]
        rw [UInt64.le_iff_toNat_le, UInt64.toNat_ofNat_of_lt' ht, UInt64.toNat_ofNat_of_lt' hb]
        exact Nat.le_add_right _ _
      rw [if_pos ht, if_neg (Nat.not_le.2 ht)]
      simp only [WordStep.result, ok_bind, lift_ok, hroom, UInt64.toNat_ofNat_of_lt' ht,
        UInt64.toNat_ofNat_of_lt' hb]
      by_cases hlen : command.args.length = command.op.argTotal
      · simp only [hlen, ne_eq, not_true_eq_false, ↓reduceIte]
        cases splitOperands command.op command.op.bitTotal command.args with
        | error e => rfl
        | ok parts => rfl
      · simp only [hlen, ne_eq, not_false_eq_true, ↓reduceIte]
        rfl
    · rw [if_neg ht, if_pos (Nat.not_lt.1 ht)]
      rfl

/-! ## Reading a circuit -/

/-- The text begins with a document that has the shape of a circuit, with this content. -/
def Describes (s : String) (d : Description) : Prop :=
  ∃ j rest, Json.read? s = some (j, rest) ∧ Description.ofJson? j = some d

theorem Describes.unique {s : String} {d d' : Description} (h : Describes s d)
    (h' : Describes s d') : d = d' := by
  obtain ⟨j, rest, hj, hd⟩ := h
  obtain ⟨j', rest', hj', hd'⟩ := h'
  cases hj.symm.trans hj'
  exact Option.some.inj (hd.symm.trans hd')

namespace Description

variable {d : Description}

theorem firstFault_of_build {f : Failure} (h : (d.build.apply {}).result = .error f) :
    d.FirstFault f := by
  rcases consistent_or_firstFault d with hc | ⟨g, hg⟩
  · rw [(build_yields hc).apply] at h
    cases h
  · obtain ⟨_, _, he⟩ := build_yields_error hg
    rw [he.apply] at h
    cases h
    exact hg

/-- Building a description overflows exactly if its registers and its bit list are accepted, and the
first command that is not has a consistent operation with too many bits and slots. -/
theorem build_overflow_iff :
    (d.build.apply {}).result = .error .overflow ↔
      d.RegistersAgree ∧ d.BitsAgree ∧
        ∃ before command, FirstOffender d.BadCommand d.commands before command ∧
          command.op.check = .ok () ∧ UInt64.size ≤ command.op.argTotal := by
  simp only [Operation.check_eq_ok_iff]
  constructor
  · intro h
    cases firstFault_of_build h with
    | register first fault => cases fault
    | command registers bits first fault =>
      cases fault with
      | overflow consistent total => exact ⟨registers, bits, _, _, first, consistent, total⟩
  · intro hx
    obtain ⟨registers, bits, before, command, first, consistent, total⟩ := hx
    obtain ⟨_, _, he⟩ :=
      build_yields_error (.command registers bits first (.overflow consistent total))
    rw [he.apply]

/-- Building a description runs out of room exactly if this is what is wrong with the first
register that is not accepted. -/
theorem build_capacity_iff :
    (d.build.apply {}).result = .error .capacity ↔
      ∃ before r, FirstOffender BadRegister d.registers before r ∧
        r.name ∉ before.map Register.name ∧ 2 ^ 58 ≤ r.size.toNat := by
  constructor
  · intro h
    cases firstFault_of_build h with
    | register first fault =>
      cases fault with
      | room new large =>
        exact ⟨_, _, first, new, Nat.not_lt.1 fun hs => large (Register.fits_iff.2 hs)⟩
    | command registers bits first fault => cases fault
  · intro hx
    obtain ⟨before, r, first, new, large⟩ := hx
    obtain ⟨_, _, he⟩ := build_yields_error
      (.register first (.room new fun hf => Nat.not_lt.2 large (Register.fits_iff.1 hf)))
    rw [he.apply]

end Description

namespace Circuit

/-- What comes of reading a text. -/
inductive Reads (s : String) : Except Failure Circuit → Prop where
  | unread (shape : ∀ d, ¬ Describes s d) : Reads s (.error (.refused .unreadable))
  | failed {d : Description} {f : Failure} (shape : Describes s d)
      (failure : (d.build.apply {}).result = .error f) : Reads s (.error (rejected f))
  | built {d : Description} (shape : Describes s d)
      (success : (d.build.apply {}).result = .ok ()) : Reads s (.ok (d.build.apply {}).value)
  | followed {d : Description} (shape : Describes s d)
      (success : (d.build.apply {}).result = .ok ()) : Reads s (.error (.refused .unreadable))

theorem reads (s : String) : Reads s (Circuit.ofText s).1 := by
  unfold ofText
  cases hj : Json.read? s with
  | none => exact .unread fun d ⟨j, rest, h, _⟩ => nomatch hj.symm.trans h
  | some read =>
    obtain ⟨j, rest⟩ := read
    dsimp only
    cases hd : Description.ofJson? j with
    | none =>
      refine .unread fun d hx => ?_
      obtain ⟨j', rest', h, h'⟩ := hx
      cases hj.symm.trans h
      cases hd.symm.trans h'
    | some d =>
      have shape : Describes s d := ⟨j, rest, hj, hd⟩
      dsimp only
      cases hr : (d.build.apply {}).result with
      | error f => exact .failed shape hr
      | ok u =>
        cases rest with
        | nil => exact .built shape hr
        | cons token rest => exact .followed shape hr

/-- What fails to be read without being refused is what fails to be built. -/
theorem ofText_eq_failure_iff {s : String} {f : Failure} (hf : ∀ e, f ≠ .refused e) :
    (Circuit.ofText s).1 = .error f ↔
      ∃ d, Describes s d ∧ (d.build.apply {}).result = .error f := by
  have hrejected : rejected f = f := by
    cases f with
    | refused e => exact absurd rfl (hf e)
    | overflow | capacity => rfl
  have h := reads s
  generalize (ofText s).1 = result at h
  constructor
  · rintro rfl
    generalize hr : (Except.error f : Except Failure Circuit) = result at h
    cases h with
    | @failed d g shape failure =>
      cases g with
      | refused e =>
        cases hr
        exact absurd rfl (hf _)
      | overflow | capacity =>
        cases hr
        exact ⟨d, shape, failure⟩
    | unread shape | followed shape success =>
      cases hr
      exact absurd rfl (hf _)
    | built shape success => cases hr
  · intro hx
    obtain ⟨d, shape, hd⟩ := hx
    cases h with
    | unread none => exact absurd shape (none d)
    | failed shape' failure =>
      cases shape.unique shape'
      cases hd.symm.trans failure
      rw [hrejected]
    | built shape' success | followed shape' success =>
      cases shape.unique shape'
      cases hd.symm.trans success

/-- Reading a text whose calls have fewer than 2³² widths each gives a circuit or an error of
reading, or it overflows, or it runs out of room. It overflows exactly on the texts of the shape of a
circuit whose registers and bit list are accepted, and whose first command that is not accepted has
a consistent operation with bits and slots that add up to no word. It runs out of room exactly on
those whose first register that is not accepted has a name of its own, but 2⁵⁸ or more bits. On
each command that the text describes, the check comes to the same when all its steps are carried out
in words, and only the sum of bits and slots can be without a result. -/
theorem ofText_overflows_exactly {s : String}
    (few : ∀ d, Describes s d → ∀ command ∈ d.commands, command.op.innermost.widthCount < 2 ^ 32) :
    ((∃ c, (ofText s).1 = .ok c) ∨ (ofText s).1 = .error (.refused .unreadable) ∨
        (∃ e, (ofText s).1 = .error (.refused (.rejected e))) ∨
        (ofText s).1 = .error .overflow ∨ (ofText s).1 = .error .capacity) ∧
      ((ofText s).1 = .error .overflow ↔
        ∃ d, Describes s d ∧ d.RegistersAgree ∧ d.BitsAgree ∧
          ∃ before command, FirstOffender d.BadCommand d.commands before command ∧
            command.op.check = .ok () ∧
            2 ^ 64 ≤ command.op.bitTotal + command.op.slotCount.toNat) ∧
      ((ofText s).1 = .error .capacity ↔
        ∃ d, Describes s d ∧
          ∃ before r, FirstOffender Description.BadRegister d.registers before r ∧
            r.name ∉ before.map Register.name ∧ 2 ^ 58 ≤ r.size.toNat) ∧
      ∀ d, Describes s d → ∀ command ∈ d.commands, ∀ c : Circuit,
        c.checkCommandInWords command = (c.checkCommand command).mapError .ofFailure := by
  refine ⟨?_, ?_, ?_, fun d shape command hm c => ?_⟩
  · have h := reads s
    generalize (ofText s).1 = result at h
    cases h with
    | unread shape | followed shape success => exact .inr (.inl rfl)
    | @failed d f shape failure =>
      cases f with
      | refused e => exact .inr (.inr (.inl ⟨e, rfl⟩))
      | overflow => exact .inr (.inr (.inr (.inl rfl)))
      | capacity => exact .inr (.inr (.inr (.inr rfl)))
    | built shape success => exact .inl ⟨_, rfl⟩
  · rw [ofText_eq_failure_iff (f := .overflow) nofun]
    simp only [Description.build_overflow_iff]
    rfl
  · rw [ofText_eq_failure_iff (f := .capacity) nofun]
    simp only [Description.build_capacity_iff]
  · obtain ⟨j, rest, -, hd⟩ := id shape
    exact c.checkCommandInWords_eq (few d shape command hm)
      (Description.nests_of_ofJson? hd command hm)

end Circuit

/-- A command on one condition bit and as many slots as a word can count. -/
def crowdedCommand : Command where
  op := .conditional (.call (.ofWidths "f" "uid" [] [] (.ofNat (UInt64.size - 1)))) 1 1
  args := []
  group := none

/-- What the document with just this command describes. -/
def crowdedCircuit : Circuit := { commands := [crowdedCommand] }

theorem describes_toText {c : Circuit} (hn : Nests c.commands) :
    Describes c.toText c.description :=
  ⟨c.toJson, [], Json.read?_write .indented c.isPlain_toJson,
    Description.ofJson?_toJson hn⟩

theorem crowdedCircuit_overflows :
    (∀ d, Describes crowdedCircuit.toText d →
        ∀ command ∈ d.commands, command.op.innermost.widthCount < 2 ^ 32) ∧
      (Circuit.ofText crowdedCircuit.toText).1 = .error .overflow := by
  have shape : Describes crowdedCircuit.toText crowdedCircuit.description :=
    describes_toText (by unfold Nests; decide)
  have few : ∀ d, Describes crowdedCircuit.toText d →
      ∀ command ∈ d.commands, command.op.innermost.widthCount < 2 ^ 32 := by
    intro d hd
    rw [hd.unique shape]
    decide
  have bad : FirstOffender crowdedCircuit.description.BadCommand [crowdedCommand] []
      crowdedCommand :=
    ⟨spotless_nil, fun h => absurd h.total (by decide), [], rfl⟩
  have registers : crowdedCircuit.description.RegistersAgree :=
    ⟨List.nodup_nil, List.forall_mem_nil _⟩
  exact ⟨few, (Circuit.ofText_overflows_exactly few).2.1.2 ⟨_, shape, registers,
    fun bits hb => (Option.some.inj hb).symm, [], crowdedCommand, bad, rfl, by decide⟩⟩

/-- A document of `vastDescription`, which leaves out all that can be left out. -/
def vastDocument : Json := .ofFields [
  ("registers", .array [.ofFields [("name", .text "a"), ("size", .nat vastSize.toNat)]])]

/-- The document has the shape of a circuit without commands, and its text is neither read nor
refused. -/
theorem vastText_unanswered :
    Describes (vastDocument.write .compact) vastDescription ∧ vastDescription.commands = [] ∧
      (Circuit.ofText (vastDocument.write .compact)).1 = .error .capacity := by
  have hplain : vastDocument.isPlain = true := by decide +kernel
  have shape : Describes (vastDocument.write .compact) vastDescription :=
    ⟨vastDocument, [], Json.read?_write .compact hplain, by decide +kernel⟩
  have failed : (vastDescription.build.apply {}).result = .error .capacity := rfl
  exact ⟨shape, rfl, (Circuit.ofText_eq_failure_iff (f := .capacity) nofun).2 ⟨_, shape, failed⟩⟩

end CallCircuit
