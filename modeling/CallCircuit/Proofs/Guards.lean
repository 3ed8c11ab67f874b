import Mathlib.Algebra.BigOperators.Fin
import CallCircuit.Proofs.Enabling
import CallCircuit.Proofs.RegisterTable

/-!
# What the guard of a call means

The settings of a call say under which condition it runs, as a predicate or as bits with a value. Its
guard is always bits with a value. Reading the bits of a guard as a number and comparing it with the
value must say the same of the values of all bits as the settings do, and a guard may only be refused
when no number of its width is the value.

* `Valuation.number_eq_sum`, `Valuation.number_bits`: the number that bits hold, by place values;
* `CallOptions.Asks.met_iff`: the bits that the settings ask about hold the value that they ask for
  exactly if what the settings say is so;
* `CallOptions.guard_keeps_meaning`: when there is a guard, and what it means;
* `vastCondition_unanswered`: a condition that is too wide, and is not refused for it.
-/

namespace CallCircuit

open Finset (range)

/-! ## Numbers read from bits -/

theorem ofBits_eq_sum {n : Nat} (digits : Fin n → Bool) :
    Nat.ofBits digits = ∑ i : Fin n, if digits i then 2 ^ (i : Nat) else 0 := by
  induction n with
  | zero => rfl
  | succ n ih =>
    have htail : 2 * Nat.ofBits (digits ∘ Fin.succ) =
        ∑ i : Fin n, if digits i.succ then 2 ^ (i.succ : Nat) else 0 := by
      rw [ih, Finset.mul_sum]
      refine Finset.sum_congr rfl fun i _ => ?_
      rw [mul_ite, mul_zero, Fin.val_succ, Nat.pow_succ, Nat.mul_comm]
      rfl
    have hhead : (digits 0).toNat = if digits 0 then 2 ^ ((0 : Fin (n + 1)) : Nat) else 0 := by
      cases digits 0 <;> rfl
    rw [Nat.ofBits_succ, htail, hhead, Fin.sum_univ_succ, Nat.add_comm]

/-- The numbers of a width are those below its power of two. -/
theorem forall_ofBits_ne_iff {width n : Nat} :
    (∀ digits : Fin width → Bool, Nat.ofBits digits ≠ n) ↔ 2 ^ width ≤ n := by
  constructor
  · intro h
    refine Nat.le_of_not_lt fun hlt => h (fun i => n.testBit i) ?_
    rw [Nat.ofBits_testBit, Nat.mod_eq_of_lt hlt]
  · rintro hle digits rfl
    exact absurd (Nat.ofBits_lt_two_pow digits) (Nat.not_lt.2 hle)

namespace Valuation

/-- A bit that is 1 counts for its place value. -/
theorem number_eq_sum (v : Valuation) (bits : List Bit) :
    v.number bits = ∑ i : Fin bits.length, if v (bits.get i) then 2 ^ (i : Nat) else 0 :=
  ofBits_eq_sum _

theorem number_singleton (v : Valuation) (b : Bit) : v.number [b] = if v b then 1 else 0 := by
  rw [number_eq_sum]
  exact Fin.sum_univ_one _

theorem number_bits (v : Valuation) (r : Register) :
    v.number r.bits = ∑ i ∈ range r.size.toNat with v ⟨r.name, .ofNat i⟩ = true, 2 ^ i := by
  have hi (i : Fin r.bits.length) : r.bits.get i = ⟨r.name, .ofNat i⟩ := by
    rw [List.get_eq_getElem]
    simp only [Register.bits, List.getElem_map, List.getElem_range]
  rw [number_eq_sum, Finset.sum_filter, ← r.length_bits, Finset.sum_range]
  exact Finset.sum_congr rfl fun i _ => by rw [hi]

end Valuation

/-! ## What the settings say -/

/-- What a condition says of the values of bits. -/
def Condition.Met (v : Valuation) : Condition → Prop
  | .isSet b => v b = true
  | .isClear b => v b = false
  | .registerEquals r value =>
    ∑ i ∈ range r.size.toNat with v ⟨r.name, .ofNat i⟩ = true, 2 ^ i = value.toNat

namespace CallOptions

/-- What the settings say of the values of bits: a condition is met, and condition bits read as a
number, the first one least significant, are the condition value. -/
def Met (o : CallOptions) (v : Valuation) : Prop :=
  (∀ c, o.condition = some c → c.Met v) ∧
    ∀ bits value, o.conditionBits = some bits → o.conditionValue = some value →
      (∑ i : Fin bits.length, if v (bits.get i) then 2 ^ (i : Nat) else 0) = value.toNat

end CallOptions

/-! ## Conditions as guards -/

theorem Condition.met_iff (c : Condition) (v : Valuation) :
    c.Met v ↔ v.number c.bits = c.value.toNat := by
  cases c with
  | isSet b =>
    show v b = true ↔ v.number [b] = 1
    rw [v.number_singleton]
    cases v b <;> decide
  | isClear b =>
    show v b = false ↔ v.number [b] = 0
    rw [v.number_singleton]
    cases v b <;> decide
  | registerEquals r value =>
    show _ ↔ v.number r.bits = value.toNat
    rw [v.number_bits, Met]

namespace CallOptions

variable {o : CallOptions} {bits : List Bit} {value : UInt64}

theorem Asks.met_iff (h : o.Asks bits value) (v : Valuation) :
    v.number bits = value.toNat ↔ o.Met v := by
  cases h with
  | condition given no_bits no_value => simp [Met, given, no_bits, Condition.met_iff]
  | bits no_condition bits_eq value_eq =>
    simp [Met, no_condition, bits_eq, value_eq, Valuation.number_eq_sum]

theorem guard_eq_none_iff : o.guard = .ok none ↔ o.Unset := by
  refine ⟨fun h => ?_, guard_of_unset⟩
  have ho := o.guardOutcome
  rw [h] at ho
  cases ho with
  | unset hu => exact hu

theorem guard_eq_conflict_iff :
    (∃ conflict, o.guard = .error (.refused (.conflictingOptions conflict))) ↔ o.Conflicts := by
  refine ⟨fun ⟨conflict, h⟩ => ?_, guard_of_conflicts⟩
  have ho := o.guardOutcome
  rw [h] at ho
  cases ho with
  | conflict hc => exact hc

theorem asks_of_guard {g : Guard} (h : o.guard = .ok (some g)) : o.Asks g.bits g.value := by
  have ho := o.guardOutcome
  rw [h] at ho
  cases ho with
  | guard asks => exact asks

theorem guard_eq_capacity_iff : o.guard = .error .capacity ↔ o.Overfills := by
  refine ⟨fun h => ?_, Overfills.guard_eq⟩
  rcases guard_failure h with ⟨e, he⟩ | ⟨-, ho⟩
  · cases he
  · exact ho

theorem guard_eq_outOfRange_iff {width : Nat} :
    o.guard = .error (.refused (.conditionOutOfRange value width)) ↔ ¬ o.Overfills ∧
      ∃ bits, o.Asks bits value ∧ bits.length = width ∧ (64 < width ∨ 2 ^ width ≤ value.toNat) := by
  constructor
  · intro h
    have ho := o.guardOutcome
    rw [h] at ho
    cases ho with
    | outOfRange asks roomy unfit => exact ⟨roomy, _, asks, rfl, unfit⟩
  · rintro ⟨roomy, bits, asks, rfl, unfit⟩
    have hv := (verdict_ofBits bits value).error_iff (.conditionOutOfRange value bits.length)
    rw [guard_of_asks asks roomy, hv.2 ⟨by omega, rfl⟩]
    rfl

/-- The guard of a call is none exactly when no condition is asked for, and refused as a conflict
exactly when the settings do not go together. Otherwise they ask that some bits hold a value. If this
is a condition on a register whose bits there is no room for, that is found first. Or else there is
a guard unless there are more than 64 bits or no number of that many bits is the value. The
bits of a guard, read as a number, are its value exactly when what the settings say is so, whatever
the bits of the circuit hold. -/
theorem guard_keeps_meaning (o : CallOptions) :
    (o.guard = .ok none ↔ o.Unset) ∧
    ((∃ conflict, o.guard = .error (.refused (.conflictingOptions conflict))) ↔ o.Conflicts) ∧
    (o.guard = .error .capacity ↔ ∃ r value, o.condition = some (.registerEquals r value) ∧
      o.conditionBits = none ∧ o.conditionValue = none ∧ 2 ^ 58 ≤ r.size.toNat) ∧
    (¬ o.Unset → ¬ o.Conflicts → o.guard ≠ .error .capacity →
      (∃ g, o.guard = .ok (some g)) ∨
        ∃ value width, o.guard = .error (.refused (.conditionOutOfRange value width))) ∧
    (∀ g, o.guard = .ok (some g) →
      o.Asks g.bits g.value ∧ ∀ v : Valuation, v.number g.bits = g.value.toNat ↔ o.Met v) ∧
    (∀ value width, o.guard = .error (.refused (.conditionOutOfRange value width)) ↔
      o.guard ≠ .error .capacity ∧ ∃ bits, o.Asks bits value ∧ bits.length = width ∧
        (64 < width ∨ 2 ^ width ≤ value.toNat)) ∧
    ∀ bits value, o.Asks bits value →
      (2 ^ bits.length ≤ value.toNat ↔
        ∀ digits : Fin bits.length → Bool, Nat.ofBits digits ≠ value.toNat) := by
  rw [Ne, guard_eq_capacity_iff]
  refine ⟨guard_eq_none_iff, guard_eq_conflict_iff, overfills_iff, fun hu hc hr => ?_,
    fun g hg => ?_, fun value width => guard_eq_outOfRange_iff,
    fun bits value _ => forall_ofBits_ne_iff.symm⟩
  · have ho := o.guardOutcome
    generalize o.guard = guard? at ho ⊢
    cases ho with
    | unset h => exact absurd h hu
    | conflict h => exact absurd h hc
    | room h => exact absurd h hr
    | guard asks => exact .inl ⟨_, rfl⟩
    | outOfRange asks => exact .inr ⟨_, _, rfl⟩
  · have ha := asks_of_guard hg
    exact ⟨ha, ha.met_iff⟩

end CallOptions

/-- No bits at all hold 0 and nothing else. -/
example :
    CallOptions.guard { conditionBits := some [], conditionValue := some 0 } = .ok (some ⟨[], 0⟩) ∧
      CallOptions.guard { conditionBits := some [], conditionValue := some 1 } =
        .error (.refused (.conditionOutOfRange 1 0)) := ⟨rfl, rfl⟩

/-- The settings ask for too many bits, and are not refused for it. -/
theorem vastCondition_unanswered :
    ¬ vastCondition.Unset ∧ ¬ vastCondition.Conflicts ∧
      (∃ bits, vastCondition.Asks bits 0 ∧ 64 < bits.length) ∧
      vastCondition.guard = .error .capacity := by
  have hwide : 64 < (Register.bits ⟨"w", vastSize⟩).length := by
    rw [Register.length_bits]
    decide
  have asks : vastCondition.Asks (Register.bits ⟨"w", vastSize⟩) 0 :=
    .condition (c := .registerEquals ⟨"w", vastSize⟩ 0) rfl rfl rfl
  refine ⟨fun h => (nomatch h.1), ?_, ⟨_, asks, hwide⟩, rfl⟩
  simp [CallOptions.Conflicts, vastCondition]

end CallCircuit
