import Mathlib.Algebra.GroupWithZero.Nat
import CallCircuit.Proofs.Units

/-!
# Commands that fit a circuit

`CommandFits` says which commands may stand in a circuit, in terms of the numbers and lists in them,
and `CommandFault` what is the first thing wrong with one that may not.

* `verdict_check`: `Operation.check` accepts conditions that can hold and counts that agree;
* `bitCount?_eq`: the bits of an operation are counted exactly, or the count is no word;
* `verdict_splitOperands`: operands are told apart by their kinds and places;
* `verdict_checkCommand`: `Circuit.checkCommand` accepts what fits and finds what is wrong.
-/

namespace CallCircuit

/-! ## Conditions and counts -/

theorem totalWidth_eq_sum (widths : List UInt32) :
    totalWidth widths = (widths.map UInt32.toNat).sum := by
  rw [List.sum, List.foldr_map]
  rfl

theorem totalWidth_cons (width : UInt32) (widths : List UInt32) :
    totalWidth (width :: widths) = width.toNat + totalWidth widths := rfl

theorem totalWidth_append (a b : List UInt32) :
    totalWidth (a ++ b) = totalWidth a + totalWidth b := by
  simp only [totalWidth_eq_sum, List.map_append, List.sum_append_nat]

/-- This many bits can hold the value, and they are not too many for a condition. -/
def Holds (width value : UInt64) : Prop :=
  width.toNat ≤ maxConditionWidth ∧ value.toNat < 2 ^ width.toNat

/-- The counts of a call are those of its widths. -/
structure ModuleCall.CountsMatch (call : ModuleCall) : Prop where
  inputs : call.inputCount.toNat = call.inputWidths.length
  outputs : call.outputCount.toNat = call.outputWidths.length
  bits : call.bitCount.toNat = totalWidth (call.inputWidths ++ call.outputWidths)

namespace Operation

/-- The width and the value of each condition, the outermost first. -/
def conditions : Operation → List (UInt64 × UInt64)
  | .call _ => []
  | .conditional op width value => (width, value) :: op.conditions

/-- The number of bits of the conditions and the call. -/
def bitTotal (op : Operation) : Nat :=
  (op.conditions.map (·.1.toNat)).sum + op.innermost.bitCount.toNat

/-- The number of bits and slots. -/
def argTotal (op : Operation) : Nat := op.bitTotal + op.slotCount.toNat

/-- The condition cannot hold. -/
def BadCondition (_ : List (UInt64 × UInt64)) (condition : UInt64 × UInt64) : Prop :=
  ¬ Holds condition.1 condition.2

/-- The counts in an operation agree, and each of its conditions can hold. -/
structure Consistent (op : Operation) : Prop where
  conditions : ∀ condition ∈ op.conditions, Holds condition.1 condition.2
  counts : op.innermost.CountsMatch

end Operation

theorem fitsWidth_iff (value : UInt64) (width : Nat) :
    fitsWidth value width = true ↔ width ≤ maxConditionWidth ∧ value.toNat < 2 ^ width := by
  simp only [fitsWidth, Bool.and_eq_true, decide_eq_true_eq, Bool.or_eq_true, beq_iff_eq]
  refine and_congr_right fun hw => ?_
  rw [maxConditionWidth] at hw ⊢
  rcases Nat.lt_or_eq_of_le hw with hw | rfl
  · have hn : (UInt64.ofNat width).toNat % 64 = width := by
      rw [UInt64.toNat_ofNat_of_lt' (by simp [UInt64.size]; omega), Nat.mod_eq_of_lt hw]
    have h0 : value >>> UInt64.ofNat width = 0 ↔ value.toNat >>> width = 0 := by
      rw [← UInt64.toNat_inj, UInt64.toNat_shiftRight, hn]
      rfl
    rw [h0, Nat.shiftRight_eq_div_pow, Nat.div_eq_zero_iff]
    simp [Nat.ne_of_lt hw]
  · simpa using value.toNat_lt

theorem verdict_checkConditionValue (value : UInt64) (width : Nat) :
    Verdict (checkConditionValue value width)
      (fun _ => width ≤ maxConditionWidth ∧ value.toNat < 2 ^ width)
      fun e => ¬ (width ≤ maxConditionWidth ∧ value.toNat < 2 ^ width) ∧
        .conditionOutOfRange value width = e := by
  unfold checkConditionValue
  rw [← fitsWidth_iff]
  by_cases h : fitsWidth value width
  · simpa [h] using Verdict.ok ()
  · simpa [h] using Verdict.error _

theorem countsAgree_iff (call : ModuleCall) : call.countsAgree = true ↔ call.CountsMatch := by
  simp only [ModuleCall.countsAgree, Bool.and_eq_true, beq_iff_eq]
  exact ⟨fun ⟨⟨hi, ho⟩, hb⟩ => ⟨hi, ho, hb⟩, fun h => ⟨⟨h.inputs, h.outputs⟩, h.bits⟩⟩

/-- The error for a condition that cannot hold. -/
def ConditionError (condition : UInt64 × UInt64) (e : CircuitError) : Prop :=
  .conditionOutOfRange condition.2 condition.1.toNat = e

theorem verdict_check (op : Operation) :
    Verdict op.check
      (fun _ => Spotless Operation.BadCondition op.conditions ∧ op.innermost.CountsMatch)
      fun e => Stops Operation.BadCondition ConditionError op.conditions e ∨
        Spotless Operation.BadCondition op.conditions ∧
          (¬ op.innermost.CountsMatch ∧ .inconsistent (.counts op.innermost) = e) := by
  induction op with
  | call call =>
    unfold Operation.check
    by_cases h : call.countsAgree
    · simpa [h, Operation.conditions, Operation.innermost, ← countsAgree_iff, Stops]
        using Verdict.ok ()
    · simpa [h, Operation.conditions, Operation.innermost, ← countsAgree_iff, Stops]
        using Verdict.error _
  | conditional op width value ih =>
    unfold Operation.check
    have hc := verdict_checkConditionValue value width.toNat
    by_cases h : Holds width value
    · rw [(hc.ok_iff ()).2 h, ok_bind]
      exact .scan_step (by simpa [Operation.BadCondition] using h) ih
    · rw [(hc.error_iff _).2 ⟨h, rfl⟩, error_bind]
      exact .scan_stop h (.error _)

theorem checkedAdd_ofNat (a : UInt64) {n : Nat} (hn : n < UInt64.size) :
    checkedAdd a (UInt64.ofNat n) =
      if a.toNat + n < UInt64.size then some (UInt64.ofNat (a.toNat + n)) else none := by
  unfold checkedAdd
  rw [UInt64.toNat_ofNat_of_lt' hn, UInt64.ofNat_add, UInt64.ofNat_toNat]

theorem bitCount?_eq (op : Operation) :
    op.bitCount? = if op.bitTotal < UInt64.size then some (UInt64.ofNat op.bitTotal) else none := by
  induction op with
  | call call =>
    simp [Operation.bitCount?, Operation.bitTotal, Operation.conditions, Operation.innermost,
      UInt64.toNat_lt_size]
  | conditional op width value ih =>
    have ht : (Operation.conditional op width value).bitTotal = width.toNat + op.bitTotal := by
      simp [Operation.bitTotal, Operation.conditions, Operation.innermost, Nat.add_assoc]
    rw [Operation.bitCount?, ih, ht]
    by_cases h : op.bitTotal < UInt64.size
    · rw [if_pos h, Option.bind_some, checkedAdd_ofNat width h]
    · rw [if_neg h, if_neg (by omega), Option.bind_none]

/-! ## The places of operands -/

/-- Whether the operand is a bit. -/
def Operand.isBit : Operand → Bool
  | .bit _ => true
  | .slot _ => false

/-- The operand is a slot among the first operands, which have to be bits, or a bit behind them. -/
def Misplaced (bitCount : Nat) (before : List Operand) (arg : Operand) : Prop :=
  ¬ (arg.isBit = true ↔ before.length < bitCount)

theorem misplaced_succ (bitCount : Nat) (arg : Operand) :
    (fun before => Misplaced (bitCount + 1) (arg :: before)) = Misplaced bitCount := by
  funext before x
  simp [Misplaced]

theorem misplaced_zero (arg : Operand) :
    (fun before => Misplaced 0 (arg :: before)) = Misplaced 0 := by
  funext before x
  simp [Misplaced]

theorem spotless_misplaced_iff (bits : List Bit) (slots : List Slot) (bitCount : Nat) :
    Spotless (Misplaced bitCount) (bits.map .bit ++ slots.map .slot) ↔
      bits.length = bitCount ∨ bits.length < bitCount ∧ slots = [] := by
  induction bits generalizing bitCount with
  | nil =>
    cases bitCount with
    | zero =>
      rw [List.map_nil, List.nil_append]
      induction slots with
      | nil => simp
      | cons s slots ih =>
        rw [List.map_cons, spotless_cons, misplaced_zero, ih]
        simp [Misplaced, Operand.isBit]
    | succ n => cases slots <;> simp [spotless_cons, Misplaced, Operand.isBit]
  | cons b bits ih =>
    rw [List.map_cons, List.cons_append, spotless_cons]
    cases bitCount with
    | zero => simp [Misplaced, Operand.isBit]
    | succ n => simp [misplaced_succ, ih, Misplaced, Operand.isBit]

theorem bit_cons_eq_iff {b : Bit} {args : List Operand} {parts : List Bit × List Slot} :
    .bit b :: args = parts.1.map .bit ++ parts.2.map .slot ↔
      ∃ rest : List Bit × List Slot,
        args = rest.1.map .bit ++ rest.2.map .slot ∧ (b :: rest.1, rest.2) = parts := by
  obtain ⟨bits, slots⟩ := parts
  constructor
  · intro h
    cases bits with
    | nil => cases slots <;> cases h
    | cons b' bits =>
      cases h
      exact ⟨(bits, slots), rfl, rfl⟩
  · intro h
    obtain ⟨rest, rfl, ⟨⟩⟩ := h
    rfl

/-- Behind a slot there have to be slots only. -/
theorem slot_cons_eq_iff {s : Slot} {args : List Operand} {parts : List Bit × List Slot}
    (hs : Spotless (Misplaced 0) args) :
    .slot s :: args = parts.1.map .bit ++ parts.2.map .slot ↔
      ∃ rest : List Bit × List Slot,
        args = rest.1.map .bit ++ rest.2.map .slot ∧ (rest.1, s :: rest.2) = parts := by
  obtain ⟨bits, slots⟩ := parts
  constructor
  · intro h
    cases bits with
    | nil =>
      cases slots with
      | nil => cases h
      | cons s' slots =>
        cases h
        exact ⟨([], slots), rfl, rfl⟩
    | cons b bits => cases h
  · intro h
    obtain ⟨⟨bits, slots⟩, rfl, ⟨⟩⟩ := h
    have hb : bits = [] := by simpa using (spotless_misplaced_iff bits slots 0).1 hs
    rw [hb]
    rfl

theorem verdict_splitOperands (op : Operation) (bitCount : Nat) (args : List Operand) :
    Verdict (splitOperands op bitCount args)
      (fun parts => Spotless (Misplaced bitCount) args ∧
        args = parts.1.map .bit ++ parts.2.map .slot)
      fun e =>
        Stops (Misplaced bitCount) (fun arg e => .inconsistent (.misplaced arg op) = e) args e ∨
          Spotless (Misplaced bitCount) args ∧ False := by
  induction args generalizing bitCount with
  | nil =>
    refine (Verdict.ok ([], [])).congr (fun parts => ?_) (by simp [Stops])
    obtain ⟨bits, slots⟩ := parts
    simp [eq_comm]
  | cons arg args ih =>
    cases arg with
    | bit b =>
      cases bitCount with
      | zero => exact .scan_stop (by simp [Misplaced, Operand.isBit]) (.error _)
      | succ n =>
        refine .scan_step (by simp [Misplaced, Operand.isBit]) ?_
        rw [misplaced_succ]
        refine ((ih n).bind fun rest _ => .ok (b :: rest.1, rest.2)).congr (fun parts => ?_)
          (by simp)
        simp only [bit_cons_eq_iff, and_assoc, exists_and_left]
    | slot s =>
      cases bitCount with
      | zero =>
        refine .scan_step (by simp [Misplaced, Operand.isBit]) ?_
        rw [misplaced_zero]
        refine ((ih 0).bind fun rest _ => .ok (rest.1, s :: rest.2)).congr (fun parts => ?_)
          (by simp)
        simp only [and_assoc, exists_and_left]
        exact and_congr_right fun hs => (slot_cons_eq_iff hs).symm
      | succ n => exact .scan_stop (by simp [Misplaced, Operand.isBit]) (.error _)

/-! ## Whole commands -/

/-- The operands of a command are these bits and then these slots, as many as the operation acts
on. -/
structure Command.Layout (command : Command) (bits : List Bit) (slots : List Slot) : Prop where
  args : command.args = bits.map .bit ++ slots.map .slot
  bits_length : bits.length = command.op.bitTotal
  slots_length : slots.length = command.op.slotCount.toNat

theorem Command.layout_iff {command : Command} {bits : List Bit} {slots : List Slot}
    (h : command.args.length = command.op.argTotal) :
    command.Layout bits slots ↔
      Spotless (Misplaced command.op.bitTotal) command.args ∧
        command.args = bits.map .bit ++ slots.map .slot := by
  rw [Operation.argTotal] at h
  constructor
  · intro hx
    obtain ⟨ha, hb, -⟩ := hx
    rw [ha, spotless_misplaced_iff]
    exact ⟨.inl hb, rfl⟩
  · intro hx
    obtain ⟨hs, ha⟩ := hx
    rw [ha, spotless_misplaced_iff] at hs
    rw [ha, List.length_append, List.length_map, List.length_map] at h
    have hb : bits.length = command.op.bitTotal := by
      rcases hs with hb | ⟨hb, rfl⟩
      · exact hb
      · rw [List.length_nil] at h
        omega
    exact ⟨ha, hb, by omega⟩

theorem Command.Layout.length {command : Command} {bits : List Bit} {slots : List Slot}
    (h : command.Layout bits slots) : command.args.length = command.op.argTotal := by
  rw [h.args, List.length_append, List.length_map, List.length_map, h.bits_length, h.slots_length,
    Operation.argTotal]

/-- The slot is none of a state register of this size. -/
def BeyondSlots (slotCount : UInt64) (_ : List Slot) (s : Slot) : Prop := slotCount ≤ s.index

/-- The command may stand in a circuit that has these bits and this many slots. -/
structure CommandFits (known : Bit → Prop) (slotCount : UInt64) (command : Command) : Prop where
  consistent : command.op.Consistent
  total : command.op.argTotal < UInt64.size
  operands : ∃ bits slots, command.Layout bits slots ∧ (∀ s ∈ slots, s.index < slotCount) ∧
    UnitsFit known bits slots

/-- More bits and more slots do no harm. -/
theorem CommandFits.mono {known known' : Bit → Prop} {slotCount slotCount' : UInt64}
    {command : Command} (h : CommandFits known slotCount command)
    (hk : ∀ b, known b → known' b) (hs : slotCount ≤ slotCount') :
    CommandFits known' slotCount' command := by
  obtain ⟨bits, slots, hl, hb, hu⟩ := h.operands
  exact ⟨h.consistent, h.total, bits, slots, hl,
    fun s hm => UInt64.lt_of_lt_of_le (hb s hm) hs,
    fun b hm => hk b (hu.known b hm), hu.bits_nodup, hu.slots_nodup⟩

/-- What is the first thing wrong with a command. Each constructor stands for a stage of the check
and asks that the stages before it have been passed. -/
inductive CommandFault (known : Bit → Prop) (slotCount : UInt64) (command : Command) :
    Failure → Prop where
  | condition {before : List (UInt64 × UInt64)} {condition : UInt64 × UInt64}
      (first : FirstOffender Operation.BadCondition command.op.conditions before condition) :
      CommandFault known slotCount command
        (.refused (.conditionOutOfRange condition.2 condition.1.toNat))
  | counts (conditions : Spotless Operation.BadCondition command.op.conditions)
      (counts : ¬ command.op.innermost.CountsMatch) :
      CommandFault known slotCount command
        (.refused (.inconsistent (.counts command.op.innermost)))
  | overflow (consistent : command.op.Consistent) (total : UInt64.size ≤ command.op.argTotal) :
      CommandFault known slotCount command .overflow
  | argumentCount (consistent : command.op.Consistent) (total : command.op.argTotal < UInt64.size)
      (length : command.args.length ≠ command.op.argTotal) :
      CommandFault known slotCount command
        (.refused (.inconsistent
          (.argumentCount command.op (.ofNat command.op.argTotal) command.args.length)))
  | misplaced {before : List Operand} {arg : Operand} (consistent : command.op.Consistent)
      (total : command.op.argTotal < UInt64.size)
      (length : command.args.length = command.op.argTotal)
      (first : FirstOffender (Misplaced command.op.bitTotal) command.args before arg) :
      CommandFault known slotCount command (.refused (.inconsistent (.misplaced arg command.op)))
  | unknownSlot {bits : List Bit} {slots before : List Slot} {s : Slot}
      (consistent : command.op.Consistent) (total : command.op.argTotal < UInt64.size)
      (layout : command.Layout bits slots)
      (first : FirstOffender (BeyondSlots slotCount) slots before s) :
      CommandFault known slotCount command (.refused (.unknownSlot s))
  | units {bits : List Bit} {slots : List Slot} {e : CircuitError}
      (consistent : command.op.Consistent) (total : command.op.argTotal < UInt64.size)
      (layout : command.Layout bits slots) (slots_known : ∀ s ∈ slots, s.index < slotCount)
      (fault : UnitFault known bits slots e) :
      CommandFault known slotCount command (.refused e)

section Check

variable {c : Circuit} {command : Command}

/-- Refuses the first slot that the circuit does not have, and then the first wrong unit. -/
def Circuit.checkOperands (c : Circuit) (bits : List Bit) (slots : List Slot) :
    Except Failure Unit :=
  match slots.find? (c.slotCount ≤ ·.index) with
  | some slot => .error (.refused (.unknownSlot slot))
  | none => Failure.lift (c.checkUnits bits slots)

theorem verdict_checkOperands (bits : List Bit) (slots : List Slot) :
    Verdict (c.checkOperands bits slots)
      (fun _ => (∀ s ∈ slots, s.index < c.slotCount) ∧ UnitsFit (c.containsBit ·) bits slots)
      fun f => (∃ before s, FirstOffender (BeyondSlots c.slotCount) slots before s ∧
          .refused (.unknownSlot s) = f) ∨
        (∀ s ∈ slots, s.index < c.slotCount) ∧
          ∃ e, UnitFault (c.containsBit ·) bits slots e ∧ .refused e = f := by
  have hk : (∀ s ∈ slots, ¬ c.slotCount ≤ s.index) ↔ ∀ s ∈ slots, s.index < c.slotCount := by
    simp only [UInt64.not_le]
  rw [← hk]
  refine Verdict.find (l := slots) (fun s => c.slotCount ≤ s.index)
    (fun s => Failure.refused (.unknownSlot s)) (fun _ => decide_eq_true_iff) (fun s h => ?_)
    fun h => ?_
  · rw [Circuit.checkOperands, h]
  · rw [Circuit.checkOperands, h]
    exact (verdict_checkUnits bits slots).lift

/-- The check in terms of the numbers of bits and slots, where the two sums are one. -/
theorem checkCommand_eq (c : Circuit) (command : Command) :
    c.checkCommand command =
      Failure.lift command.op.check >>= fun _ =>
        if UInt64.size ≤ command.op.argTotal then .error .overflow
        else if command.args.length ≠ command.op.argTotal then
          .error (.refused (.inconsistent
            (.argumentCount command.op (.ofNat command.op.argTotal) command.args.length)))
        else
          Failure.lift (splitOperands command.op command.op.bitTotal command.args) >>= fun parts =>
            c.checkOperands parts.1 parts.2 := by
  unfold Circuit.checkCommand
  refine congrArg _ (funext fun _ => ?_)
  have ht : command.op.argTotal = command.op.bitTotal + command.op.slotCount.toNat := rfl
  rw [bitCount?_eq]
  by_cases h : UInt64.size ≤ command.op.argTotal
  · rw [if_pos h]
    by_cases hb : command.op.bitTotal < UInt64.size
    · rw [if_pos hb]
      have : checkedAdd (.ofNat command.op.bitTotal) command.op.slotCount = none := by
        rw [checkedAdd, UInt64.toNat_ofNat_of_lt' hb, if_neg (by omega)]
      simp only [Failure.ofSum, ok_bind, this, error_bind]
    · rw [if_neg hb]
      rfl
  · rw [if_neg h, if_pos (by omega)]
    have : checkedAdd (.ofNat command.op.bitTotal) command.op.slotCount =
        some (.ofNat command.op.argTotal) := by
      rw [checkedAdd, UInt64.toNat_ofNat_of_lt' (by omega), if_pos (by omega), ht, UInt64.ofNat_add,
        UInt64.ofNat_toNat]
    simp only [Failure.ofSum, ok_bind, this]
    rw [UInt64.toNat_ofNat_of_lt' (by omega), UInt64.toNat_ofNat_of_lt' (by omega)]
    rfl

theorem spotless_badCondition_iff {op : Operation} :
    Spotless Operation.BadCondition op.conditions ∧ op.innermost.CountsMatch ↔ op.Consistent := by
  unfold Operation.BadCondition
  rw [spotless_iff_forall]
  simp only [Classical.not_not]
  exact ⟨fun ⟨hc, hm⟩ => ⟨hc, hm⟩, fun h => ⟨h.conditions, h.counts⟩⟩

theorem verdict_checkCommand (c : Circuit) (command : Command) :
    Verdict (c.checkCommand command)
      (fun _ => CommandFits (c.containsBit ·) c.slotCount command)
      (CommandFault (c.containsBit ·) c.slotCount command) := by
  rw [checkCommand_eq]
  refine ((verdict_check command.op).lift.bind fun _ _ => .ite fun _ => .ite fun _ =>
    (verdict_splitOperands _ _ _).lift.bind fun parts _ => verdict_checkOperands _ _).congr
    (fun _ => ?_) fun f => ?_
  · simp only [spotless_badCondition_iff, Nat.not_le, exists_const]
    constructor
    · intro hx
      obtain ⟨hop, ht, hl, parts, hparts, hs, hu⟩ := hx
      have hl := Decidable.not_not.1 hl
      exact ⟨hop, ht, _, _, (Command.layout_iff hl).2 hparts, hs, hu⟩
    · intro hx
      obtain ⟨hop, ht, bits, slots, hlayout, hs, hu⟩ := hx
      have hl := hlayout.length
      exact ⟨hop, ht, fun h => h hl, (bits, slots), (Command.layout_iff hl).1 hlayout, hs, hu⟩
  · simp only [spotless_badCondition_iff, Nat.not_le, exists_const, and_false, or_false]
    constructor
    · intro hx
      rcases hx with ⟨_, ⟨before, condition, hf, rfl⟩ | ⟨hs, hm, rfl⟩, rfl⟩ | ⟨hop, hrest⟩
      · exact .condition hf
      · exact .counts hs hm
      rcases hrest with ⟨ht, rfl⟩ | ⟨ht, ⟨hl, rfl⟩ | ⟨hl, hrest⟩⟩
      · exact .overflow hop ht
      · exact .argumentCount hop ht hl
      have hl := Decidable.not_not.1 hl
      rcases hrest with ⟨_, ⟨before, arg, hf, rfl⟩, rfl⟩ | ⟨parts, hparts, hrest⟩
      · exact .misplaced hop ht hl hf
      have hlayout := (Command.layout_iff hl).2 hparts
      rcases hrest with ⟨before, s, hf, rfl⟩ | ⟨hs, e, he, rfl⟩
      · exact .unknownSlot hop ht hlayout hf
      · exact .units hop ht hlayout hs he
    · intro hx
      cases hx with
      | condition first => exact .inl ⟨_, .inl ⟨_, _, first, rfl⟩, rfl⟩
      | counts conditions counts => exact .inl ⟨_, .inr ⟨conditions, counts, rfl⟩, rfl⟩
      | overflow hop ht => exact .inr ⟨hop, .inl ⟨ht, rfl⟩⟩
      | argumentCount hop ht hl => exact .inr ⟨hop, .inr ⟨ht, .inl ⟨hl, rfl⟩⟩⟩
      | misplaced hop ht hl first =>
        exact .inr ⟨hop, .inr ⟨ht, .inr ⟨fun h => h hl, .inl ⟨_, ⟨_, _, first, rfl⟩, rfl⟩⟩⟩⟩
      | @unknownSlot bits slots _ _ hop ht layout first =>
        have hl := layout.length
        exact .inr ⟨hop, .inr ⟨ht, .inr ⟨fun h => h hl,
          .inr ⟨(bits, slots), (Command.layout_iff hl).1 layout, .inl ⟨_, _, first, rfl⟩⟩⟩⟩⟩
      | @units bits slots _ hop ht layout slots_known fault =>
        have hl := layout.length
        exact .inr ⟨hop, .inr ⟨ht, .inr ⟨fun h => h hl,
          .inr ⟨(bits, slots), (Command.layout_iff hl).1 layout,
            .inr ⟨slots_known, _, fault, rfl⟩⟩⟩⟩⟩

/-- A circuit is only asked for its bits and its slots. -/
theorem checkCommand_congr {c' : Circuit} (hb : c'.containsBit = c.containsBit)
    (hs : c'.slotCount = c.slotCount) (command : Command) :
    c'.checkCommand command = c.checkCommand command := by
  have h := verdict_checkCommand c' command
  rw [hb, hs] at h
  exact h.eq (verdict_checkCommand c command)

end Check

end CallCircuit
