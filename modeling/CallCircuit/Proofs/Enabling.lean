import Mathlib.Data.List.Nodup
import Mathlib.Data.Nat.Init
import CallCircuit.Proofs.Documents

/-!
# When a command runs

A command runs when each of its conditions holds of the values of its condition bits, which come
first among its operands. In a reachable circuit the conditions can hold and no bit occurs twice, so
there is exactly one way for the condition bits to be set under which a command runs, and it leaves
the other bits of the command free.

* `Operation.enabled_iff`: an operation runs under one list of values for its condition bits;
* `Reachable.isLayered`: how the operands of a command are laid out, whatever the changes were;
* `Reachable.enabled_by_one_pattern`: so each command runs under exactly one pattern.
-/

namespace CallCircuit

/-! ## Values of bits -/

/-- A value for each bit. -/
abbrev Valuation := Bit → Bool

/-- The number that bits hold, the first one least significant. -/
def Valuation.number (v : Valuation) (bits : List Bit) : Nat :=
  Nat.ofBits fun i : Fin bits.length => v bits[i]

/-- The lowest bits of a number, the first one least significant. -/
def lowBits (width n : Nat) : List Bool := (List.range width).map n.testBit

@[simp] theorem length_lowBits (width n : Nat) : (lowBits width n).length = width := by
  simp [lowBits]

theorem Valuation.number_eq_iff (v : Valuation) {bits : List Bit} {n : Nat}
    (hn : n < 2 ^ bits.length) : v.number bits = n ↔ bits.map v = lowBits bits.length n := by
  have hlow : bits.map v = lowBits bits.length n ↔
      ∀ i (h : i < bits.length), v bits[i] = n.testBit i := by
    rw [List.ext_getElem_iff]
    simp [lowBits]
  rw [hlow]
  constructor
  · rintro rfl i h
    rw [number, Nat.testBit_ofBits_lt _ i h]
    rfl
  · intro h
    have hf : (fun i : Fin bits.length => v bits[i]) = fun i : Fin bits.length => n.testBit i :=
      funext fun i => h i i.isLt
    rw [number, hf, Nat.ofBits_testBit, Nat.mod_eq_of_lt hn]

/-! ## Conditions -/

namespace Operation

/-- The number of condition bits. -/
def conditionTotal (op : Operation) : Nat := (op.conditions.map (·.1.toNat)).sum

/-- Every condition holds. Its bits are taken from the front of the operands, the outermost
condition first, and hold its value. -/
def Enabled (v : Valuation) : Operation → List Operand → Prop
  | .call _, _ => True
  | .conditional op width value, args =>
    (∃ bits : List Bit, args.take width.toNat = bits.map .bit ∧ bits.length = width.toNat ∧
      v.number bits = value.toNat) ∧ op.Enabled v (args.drop width.toNat)

/-- The values that the condition bits must have. -/
def pattern (op : Operation) : List Bool :=
  op.conditions.flatMap fun condition => lowBits condition.1.toNat condition.2.toNat

theorem length_pattern (op : Operation) : op.pattern.length = op.conditionTotal := by
  simp [pattern, conditionTotal, List.length_flatMap]

theorem conditionTotal_conditional (op : Operation) (width value : UInt64) :
    (conditional op width value).conditionTotal = width.toNat + op.conditionTotal := rfl

theorem pattern_conditional (op : Operation) (width value : UInt64) :
    (conditional op width value).pattern = lowBits width.toNat value.toNat ++ op.pattern := rfl

/-- The bits at the front of the operands are those that the outermost condition reads. -/
theorem exists_front_iff (v : Valuation) {front : List Bit} {rest : List Operand}
    {width value : Nat} (hl : front.length = width) :
    (∃ bits : List Bit, (front.map Operand.bit ++ rest).take width = bits.map .bit ∧
        bits.length = width ∧ v.number bits = value) ↔ v.number front = value := by
  have htake : (front.map Operand.bit ++ rest).take width = front.map .bit :=
    List.take_left' (by rw [List.length_map, hl])
  rw [htake]
  constructor
  · intro hx
    obtain ⟨bits, hb, -, hv⟩ := hx
    rw [(List.map_inj_right fun _ _ h => Operand.bit.inj h).1 hb, hv]
  · exact fun hv => ⟨front, rfl, hl, hv⟩

/-- An operation whose conditions can hold runs under one list of values for its condition bits. -/
theorem enabled_iff (v : Valuation) {op : Operation} {bits : List Bit} {rest : List Operand}
    (hc : ∀ condition ∈ op.conditions, Holds condition.1 condition.2)
    (hl : bits.length = op.conditionTotal) :
    op.Enabled v (bits.map .bit ++ rest) ↔ bits.map v = op.pattern := by
  induction op generalizing bits with
  | call c =>
    rw [List.length_eq_zero_iff.1 hl]
    simp [Enabled, pattern, conditions]
  | conditional op width value ih =>
    rw [conditionTotal_conditional] at hl
    obtain ⟨front, inner, rfl, hfront⟩ : ∃ front inner, bits = front ++ inner ∧
        front.length = width.toNat :=
      ⟨bits.take width.toNat, bits.drop width.toNat, (List.take_append_drop ..).symm,
        List.length_take_of_le (by omega)⟩
    rw [List.length_append, hfront, Nat.add_left_cancel_iff] at hl
    obtain ⟨⟨-, hv⟩, hc⟩ := List.forall_mem_cons.1 hc
    have hdrop : ((front ++ inner).map Operand.bit ++ rest).drop width.toNat =
        inner.map .bit ++ rest := by
      rw [List.map_append, List.append_assoc, List.drop_left' (by rw [List.length_map, hfront])]
    rw [Enabled, hdrop, ih hc hl, List.map_append, List.append_assoc, exists_front_iff v hfront,
      v.number_eq_iff (hfront ▸ hv), hfront, pattern_conditional, List.map_append]
    constructor
    · intro hx
      rw [hx.1, hx.2]
    · exact fun h => List.append_inj h (by rw [List.length_map, hfront, length_lowBits])

end Operation

/-! ## The operands of a command -/

/-- The conditions of the command can hold, and its operands are the condition bits, the bits of
the call and then slots, where no bit occurs twice. -/
structure Command.Layered (command : Command) (conditionBits callBits : List Bit)
    (slots : List Slot) : Prop where
  holds : ∀ condition ∈ command.op.conditions, Holds condition.1 condition.2
  args : command.args = (conditionBits ++ callBits).map .bit ++ slots.map .slot
  conditionBits_length : conditionBits.length = command.op.conditionTotal
  nodup : (conditionBits ++ callBits).Nodup

theorem CommandFits.layered {known : Bit → Prop} {slotCount : UInt64} {command : Command}
    (h : CommandFits known slotCount command) :
    ∃ conditionBits callBits slots, command.Layered conditionBits callBits slots := by
  obtain ⟨bits, slots, hl, -, hu⟩ := h.operands
  have hle : command.op.conditionTotal ≤ bits.length :=
    hl.bits_length ▸ Nat.le_add_right _ command.op.innermost.bitCount.toNat
  refine ⟨bits.take command.op.conditionTotal, bits.drop command.op.conditionTotal, slots,
    h.consistent.conditions, ?_, List.length_take_of_le hle, ?_⟩
  · rw [List.take_append_drop, hl.args]
  · rw [List.take_append_drop]
    exact hu.bits_nodup

theorem Placement.layered {p : Placement} {c : Circuit} {terms : Option Guard × UInt64}
    (h : p.verdict c = .ok terms) :
    ∃ conditionBits callBits slots, (p.command terms.1).Layered conditionBits callBits slots := by
  obtain ⟨guard, needed⟩ := terms
  obtain ⟨hg, hu, -, -⟩ := ((verdict_placement p c).ok_iff _).1 h
  cases guard with
  | none => exact ⟨[], p.bits, p.slots, nofun, rfl, rfl, hu.bits_nodup⟩
  | some g =>
    -- the width of the only condition is at most 64, so that the word for it is exact
    obtain ⟨hw, hv⟩ := CallOptions.guard_ok hg
    have hn : (UInt64.ofNat g.bits.length).toNat = g.bits.length :=
      UInt64.toNat_ofNat_of_lt' (Nat.lt_of_le_of_lt hw (by decide))
    refine ⟨g.bits, p.bits, p.slots, ?_, rfl, ?_, hu.bits_nodup⟩
    · simpa [command, operation, Operation.conditions, Holds, hn] using And.intro hw hv
    · simp [command, operation, Operation.conditionTotal, Operation.conditions, hn]

/-- The operands of every command are laid out alike. -/
def Circuit.IsLayered (c : Circuit) : Prop :=
  ∀ command ∈ c.commands, ∃ conditionBits callBits slots,
    command.Layered conditionBits callBits slots

theorem Circuit.IsSource.isLayered {c : Circuit} (h : c.IsSource) : c.IsLayered :=
  fun command hm => ((sound_iff.1 h.sound).2 command hm).layered

theorem Change.Makes.isLayered {c c' : Circuit} {change : Change} (h : change.Makes c c')
    (hc : c.IsLayered) : c'.IsLayered := by
  cases h with
  | nothing => exact hc
  | register fresh => exact hc
  | slots least => exact hc
  | command places placed =>
    rw [Circuit.IsLayered, Circuit.withCommand, List.forall_mem_append, List.forall_mem_singleton]
    exact ⟨hc, Placement.layered placed⟩

theorem Reachable.isLayered {allowed : Change → Prop} {c : Circuit} (h : Reachable allowed c) :
    c.IsLayered :=
  h.invariant (fun _ => Circuit.IsSource.isLayered) fun _ _ _ _ hc hm => hm.isLayered hc

/-! ## The pattern of a command -/

/-- The command runs when bits have these values. -/
def Command.Enabled (v : Valuation) (command : Command) : Prop := command.op.Enabled v command.args

/-- Distinct elements can be given any values. -/
theorem exists_map_eq {α β : Type} [DecidableEq α] [Inhabited β] {l : List α} (hl : l.Nodup)
    {ys : List β} (h : l.length = ys.length) : ∃ f : α → β, l.map f = ys := by
  induction l generalizing ys with
  | nil => exact ⟨fun _ => default, (List.length_eq_zero_iff.1 h.symm).symm⟩
  | cons x l ih =>
    cases ys with
    | nil => cases h
    | cons y ys =>
      obtain ⟨hx, hl⟩ := List.nodup_cons.1 hl
      obtain ⟨f, rfl⟩ := ih hl (Nat.succ.inj h)
      exact ⟨Function.update f x y, by
        rw [List.map_cons, Function.update_self, hl.map_update, if_neg hx]⟩

theorem Command.Layered.exists_pattern {command : Command} {conditionBits callBits : List Bit}
    {slots : List Slot} (h : command.Layered conditionBits callBits slots) :
    ∃ setting : Valuation, ∀ v, command.Enabled v ↔ ∀ b ∈ conditionBits, v b = setting b := by
  obtain ⟨setting, hs⟩ := exists_map_eq (List.nodup_append.1 h.nodup).1
    (h.conditionBits_length.trans command.op.length_pattern.symm)
  refine ⟨setting, fun v => ?_⟩
  rw [Enabled, h.args, List.map_append, List.append_assoc,
    Operation.enabled_iff v h.holds h.conditionBits_length, ← hs, List.map_inj_left]

theorem Command.Layered.mem_front_iff {command : Command} {conditionBits callBits : List Bit}
    {slots : List Slot} (h : command.Layered conditionBits callBits slots) (b : Bit) :
    Operand.bit b ∈ command.args.take command.op.conditionTotal ↔ b ∈ conditionBits := by
  rw [h.args, List.map_append, List.append_assoc,
    List.take_left' (by rw [List.length_map, h.conditionBits_length])]
  simp

theorem Command.Layered.mem_rest_iff {command : Command} {conditionBits callBits : List Bit}
    {slots : List Slot} (h : command.Layered conditionBits callBits slots) (b : Bit) :
    Operand.bit b ∈ command.args.drop command.op.conditionTotal ↔ b ∈ callBits := by
  rw [h.args, List.map_append, List.append_assoc,
    List.drop_left' (by rw [List.length_map, h.conditionBits_length])]
  simp

/-- However a circuit has been reached, there is exactly one pattern of the bits among the first
operands of a command, as many as its conditions have bits in all, such that the command runs
when these bits have it. The bits behind them can have any values at the same time. -/
theorem Reachable.enabled_by_one_pattern {allowed : Change → Prop} {c : Circuit}
    (hc : Reachable allowed c) {command : Command} (hm : command ∈ c.commands) :
    let front := command.args.take command.op.conditionTotal
    let rest := command.args.drop command.op.conditionTotal
    (∃! pattern : {b // Operand.bit b ∈ front} → Bool,
        ∀ v : Valuation, command.Enabled v ↔ ∀ b, v b.1 = pattern b) ∧
      ∀ values : Valuation, ∃ v : Valuation,
        command.Enabled v ∧ ∀ b, Operand.bit b ∈ rest → v b = values b := by
  intro front rest
  obtain ⟨conditionBits, callBits, slots, h⟩ := hc.isLayered command hm
  obtain ⟨setting, hs⟩ := h.exists_pattern
  have hfront (b : Bit) : Operand.bit b ∈ front ↔ b ∈ conditionBits := h.mem_front_iff b
  have hrest (b : Bit) : Operand.bit b ∈ rest ↔ b ∈ callBits := h.mem_rest_iff b
  refine ⟨⟨fun b => setting b.1, fun v => ?_, fun pattern hp => ?_⟩, fun values => ?_⟩
  · rw [hs, Subtype.forall]
    simp only [hfront]
  · -- the command runs under the setting, so that any such pattern is its restriction
    exact funext fun b => ((hp setting).1 ((hs setting).2 fun _ _ => rfl) b).symm
  · refine ⟨fun b => if b ∈ conditionBits then setting b else values b, ?_, fun b hb => ?_⟩
    · exact (hs _).2 fun b hb => if_pos hb
    · have hne : b ∉ conditionBits := fun hf =>
        (List.nodup_append.1 h.nodup).2.2 b hf b ((hrest b).1 hb) rfl
      exact if_neg hne

/-! ## A command under two conditions -/

/-- A call on the bits and slots of `nestedCircuit`. The outer condition asks that the first two
operands hold 2, the inner one that the third is clear. -/
def nestedCommand : Command where
  op := .conditional (.conditional (.call (.ofWidths "f" "uid" [1] [] 1)) 1 0) 2 2
  args := [.bit ⟨"a", 3⟩, .bit ⟨"a", 0⟩, .bit ⟨"a", 1⟩, .bit ⟨"a", 2⟩, .slot ⟨0⟩]
  group := none

/-- A circuit with a command under two conditions, which only reading gives. -/
def nestedCircuit : Circuit where
  registers := [⟨"a", 4⟩]
  bits := Register.bits ⟨"a", 4⟩
  slotCount := 1
  commands := [nestedCommand]

theorem nestedCircuit_sound : nestedCircuit.Sound := by
  have names : nestedCircuit.HasDistinctNames := List.pairwise_singleton _ _
  refine Circuit.sound_iff.2 ⟨⟨names, by decide, rfl⟩, fun command hm => ?_⟩
  have hv := verdict_checkCommand nestedCircuit command
  rw [Circuit.containsBit_eq names] at hv
  obtain rfl : command = nestedCommand := List.mem_singleton.1 hm
  exact (hv.ok_iff ()).1 (by decide +kernel)

theorem reachable_nestedCircuit : Reachable Change.Proper nestedCircuit :=
  .source (.read (nestedCircuit_sound.reads_back (by unfold Nests; decide)))

theorem nestedCommand_enabled_by_one_pattern :
    Reachable Change.Proper nestedCircuit ∧ nestedCommand ∈ nestedCircuit.commands ∧
      (∃! pattern : {b // Operand.bit b ∈ nestedCommand.args.take 3} → Bool,
        ∀ v : Valuation, nestedCommand.Enabled v ↔ ∀ b, v b.1 = pattern b) ∧
      ∀ values : Valuation, ∃ v : Valuation,
        nestedCommand.Enabled v ∧ ∀ b, Operand.bit b ∈ nestedCommand.args.drop 3 → v b = values b :=
  have hm : nestedCommand ∈ nestedCircuit.commands := List.mem_singleton_self _
  ⟨reachable_nestedCircuit, hm, reachable_nestedCircuit.enabled_by_one_pattern hm⟩

end CallCircuit
