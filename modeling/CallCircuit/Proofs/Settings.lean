import CallCircuit.Proofs.Commands
import CallCircuit.Proofs.Edits

/-!
# The settings of a call

The settings ask for no condition, or do not go together, or ask that some bits hold a value. The
guard follows from which of these is the case, except that a condition on a register also needs room
for a list of its bits. `CallOptions.GuardOutcome` lists everything that can come of settings.

* `Register.fits_iff`: there is room for fewer than 2⁵⁸ bits;
* `Condition.guard_eq`: each condition asks that some bits hold a value, once there is room for them;
* `CallOptions.unset_or_conflicts_or_asks`: the three cases, of which there is no other;
* `CallOptions.guardOutcome`: what comes of any settings;
* `CallOptions.guard_ok`, `CallOptions.guard_failure`: what this says of a guard, and of none.
-/

namespace CallCircuit

theorem Register.fits_iff {r : Register} : r.Fits ↔ r.size.toNat < 2 ^ 58 := by
  rw [Fits, hasRoom, decide_eq_true_iff, bitBytes, maxListBytes]
  omega

/-! ## Conditions -/

namespace Condition

/-- The bits that a condition is about. -/
def bits : Condition → List Bit
  | .isSet b | .isClear b => [b]
  | .registerEquals r _ => r.bits

/-- The number that the bits of a condition must hold. -/
def value : Condition → UInt64
  | .isSet _ => 1
  | .isClear _ => 0
  | .registerEquals _ value => value

/-- There is room for a list of the bits that a condition is about. -/
def Fits : Condition → Prop
  | .isSet _ | .isClear _ => True
  | .registerEquals r _ => r.Fits

instance (c : Condition) : Decidable c.Fits :=
  match c with
  | .isSet _ | .isClear _ => .isTrue trivial
  | .registerEquals r _ => inferInstanceAs (Decidable r.Fits)

theorem guard_eq (c : Condition) :
    c.guard =
      if c.Fits then Failure.lift (Guard.ofBits c.bits c.value) else .error .capacity := by
  cases c with
  | isSet b | isClear b => rfl
  | registerEquals r value =>
    show _ = if r.Fits then _ else _
    by_cases h : r.Fits
    · rw [guard, Register.collectBits, r.checkRoom_of_fits h, if_pos h]
      rfl
    · rw [guard, Register.collectBits, r.checkRoom_of_not_fits h, if_neg h]
      rfl

end Condition

theorem verdict_ofBits (bits : List Bit) (value : UInt64) :
    Verdict (Guard.ofBits bits value)
      (fun g => (bits.length ≤ 64 ∧ value.toNat < 2 ^ bits.length) ∧ ⟨bits, value⟩ = g)
      fun e => ¬ (bits.length ≤ 64 ∧ value.toNat < 2 ^ bits.length) ∧
        .conditionOutOfRange value bits.length = e := by
  refine ((verdict_checkConditionValue value bits.length).bind fun _ _ =>
    Verdict.ok (Guard.mk bits value)).congr (fun g => ?_) fun e => ?_
  · exact exists_const Unit
  · simp [maxConditionWidth]

namespace CallOptions

variable {o : CallOptions} {bits : List Bit} {value : UInt64} {f : Failure}

/-! ## What the settings say -/

/-- The settings ask for no condition. -/
def Unset (o : CallOptions) : Prop :=
  o.condition = none ∧ o.conditionBits = none ∧ o.conditionValue = none

/-- The settings do not go together: a condition stands beside condition bits or a condition value,
or one of these two is missing. -/
def Conflicts (o : CallOptions) : Prop :=
  o.condition.isSome ∧ (o.conditionBits.isSome ∨ o.conditionValue.isSome) ∨
    o.conditionBits.isSome ≠ o.conditionValue.isSome

/-- The settings ask that these bits hold this value. -/
inductive Asks (o : CallOptions) : List Bit → UInt64 → Prop where
  | condition {c : Condition} (given : o.condition = some c) (no_bits : o.conditionBits = none)
      (no_value : o.conditionValue = none) : o.Asks c.bits c.value
  | bits {bits : List Bit} {value : UInt64} (no_condition : o.condition = none)
      (bits_eq : o.conditionBits = some bits) (value_eq : o.conditionValue = some value) :
      o.Asks bits value

/-- The settings are a condition alone, and there is no room for the bits that it is about. -/
def Overfills (o : CallOptions) : Prop :=
  ∃ c, o.condition = some c ∧ o.conditionBits = none ∧ o.conditionValue = none ∧ ¬ c.Fits

theorem overfills_iff :
    o.Overfills ↔ ∃ r value, o.condition = some (.registerEquals r value) ∧
      o.conditionBits = none ∧ o.conditionValue = none ∧ 2 ^ 58 ≤ r.size.toNat := by
  constructor
  · rintro ⟨c, hc, hb, hv, hf⟩
    cases c with
    | isSet b | isClear b => exact absurd trivial hf
    | registerEquals r value =>
      exact ⟨r, value, hc, hb, hv, Nat.not_lt.1 fun h => hf (Register.fits_iff.2 h)⟩
  · rintro ⟨r, value, hc, hb, hv, hs⟩
    exact ⟨_, hc, hb, hv, fun h => Nat.not_lt.2 hs (Register.fits_iff.1 h)⟩

theorem unset_or_conflicts_or_asks (o : CallOptions) :
    o.Unset ∨ o.Conflicts ∨ ∃ bits value, o.Asks bits value := by
  cases hc : o.condition with
  | none =>
    cases hb : o.conditionBits with
    | none =>
      cases hv : o.conditionValue with
      | none => exact .inl ⟨hc, hb, hv⟩
      | some value => exact .inr (.inl (.inr (by simp [hb, hv])))
    | some bits =>
      cases hv : o.conditionValue with
      | none => exact .inr (.inl (.inr (by simp [hb, hv])))
      | some value => exact .inr (.inr ⟨bits, value, .bits hc hb hv⟩)
  | some c =>
    by_cases h : o.conditionBits.isSome ∨ o.conditionValue.isSome
    · exact .inr (.inl (.inl ⟨by rw [hc, Option.isSome_some], h⟩))
    · simp only [not_or, Option.not_isSome_iff_eq_none] at h
      exact .inr (.inr ⟨c.bits, c.value, .condition hc h.1 h.2⟩)

/-! ## What comes of the settings -/

theorem guard_of_unset (h : o.Unset) : o.guard = .ok none := by
  simp only [guard, h.1, h.2.1, h.2.2]

theorem guard_of_conflicts (h : o.Conflicts) :
    ∃ conflict, o.guard = .error (.refused (.conflictingOptions conflict)) := by
  obtain ⟨group, condition, bits, value⟩ := o
  cases condition <;> cases bits <;> cases value <;> simp [Conflicts, guard] at h ⊢

theorem Overfills.guard_eq (h : o.Overfills) : o.guard = .error .capacity := by
  obtain ⟨c, hc, hb, hv, hf⟩ := h
  simp only [guard, hc, hb, hv, c.guard_eq, if_neg hf]
  rfl

theorem guard_of_asks (h : o.Asks bits value) (hf : ¬ o.Overfills) :
    o.guard = some <$> Failure.lift (Guard.ofBits bits value) := by
  cases h with
  | @condition c given no_bits no_value =>
    have hc : c.Fits := Decidable.byContradiction fun hc => hf ⟨c, given, no_bits, no_value, hc⟩
    simp only [guard, given, no_bits, no_value, c.guard_eq, if_pos hc]
  | bits no_condition bits_eq value_eq => simp only [guard, no_condition, bits_eq, value_eq]

/-- What comes of the settings of a call. -/
inductive GuardOutcome (o : CallOptions) : Except Failure (Option Guard) → Prop where
  | unset (h : o.Unset) : GuardOutcome o (.ok none)
  | conflict (h : o.Conflicts) (conflict : OptionConflict) :
      GuardOutcome o (.error (.refused (.conflictingOptions conflict)))
  | room (overfills : o.Overfills) : GuardOutcome o (.error .capacity)
  | guard {bits : List Bit} {value : UInt64} (asks : o.Asks bits value)
      (narrow : bits.length ≤ 64) (small : value.toNat < 2 ^ bits.length) :
      GuardOutcome o (.ok (some ⟨bits, value⟩))
  | outOfRange {bits : List Bit} {value : UInt64} (asks : o.Asks bits value)
      (roomy : ¬ o.Overfills) (unfit : 64 < bits.length ∨ 2 ^ bits.length ≤ value.toNat) :
      GuardOutcome o (.error (.refused (.conditionOutOfRange value bits.length)))

theorem guardOutcome (o : CallOptions) : o.GuardOutcome o.guard := by
  rcases o.unset_or_conflicts_or_asks with hu | hc | ⟨bits, value, ha⟩
  · rw [guard_of_unset hu]
    exact .unset hu
  · obtain ⟨conflict, he⟩ := guard_of_conflicts hc
    rw [he]
    exact .conflict hc conflict
  · by_cases ho : o.Overfills
    · rw [ho.guard_eq]
      exact .room ho
    · have hv := verdict_ofBits bits value
      rw [guard_of_asks ha ho]
      by_cases hf : bits.length ≤ 64 ∧ value.toNat < 2 ^ bits.length
      · rw [(hv.ok_iff ⟨bits, value⟩).2 ⟨hf, rfl⟩]
        exact .guard ha hf.1 hf.2
      · rw [(hv.error_iff (.conditionOutOfRange value bits.length)).2 ⟨hf, rfl⟩]
        exact .outOfRange ha ho (by omega)

/-- The bits of a guard can hold its value. -/
theorem guard_ok {g : Guard} (h : o.guard = .ok (some g)) :
    g.bits.length ≤ maxConditionWidth ∧ g.value.toNat < 2 ^ g.bits.length := by
  have ho := o.guardOutcome
  rw [h] at ho
  cases ho with
  | guard asks narrow small => exact ⟨narrow, small⟩

/-- Settings without a guard are refused, or there is no room for their bits. -/
theorem guard_failure (h : o.guard = .error f) :
    (∃ e, f = .refused e) ∨ f = .capacity ∧ o.Overfills := by
  have ho := o.guardOutcome
  rw [h] at ho
  cases ho with
  | conflict | outOfRange => exact .inl ⟨_, rfl⟩
  | room overfills => exact .inr ⟨rfl, overfills⟩

end CallOptions

end CallCircuit
