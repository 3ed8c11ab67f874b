import Mathlib.Order.Bounds.Basic
import CallCircuit.Proofs.RegisterTable

/-!
# The search for a wrong bit or slot

`Circuit.checkUnits` goes through a list of bits and then through a list of slots, and remembers
what it has seen. What it comes to can be said without what it remembers: a position of a list
offends if the element there is wrong given those before it, and the least offending position, if
there is one, is the one that is reported.

* `FirstOffender.isLeast`, `firstOffender_of_isLeast`: the first offender stands at the least
  offending position;
* `UnitsFit.perm`, `UnitsFit.sublist`: bits and slots that fit still do in another order, and when
  some are left out;
* `Reachable.checkUnits_exactly`: what checking bits and slots against a reachable circuit comes to.
-/

namespace CallCircuit

/-! ## Offending positions -/

section Positions

variable {α : Type} {bad : List α → α → Prop} {l before : List α} {x : α} {i : Nat}

/-- The positions of a list whose element is bad, given the elements before it. -/
def offendingPositions (bad : List α → α → Prop) (l : List α) : Set Nat :=
  {i | ∃ x, l[i]? = some x ∧ bad (l.take i) x}

theorem FirstOffender.isLeast (h : FirstOffender bad l before x) :
    l[before.length]? = some x ∧ IsLeast (offendingPositions bad l) before.length := by
  obtain ⟨hs, hb, after, rfl⟩ := h
  have hx : (before ++ x :: after)[before.length]? = some x := by simp
  refine ⟨hx, ⟨x, hx, by simpa using hb⟩, ?_⟩
  rintro j ⟨y, hy, hj⟩
  by_contra hlt
  rw [Nat.not_le] at hlt
  -- a smaller offending position would be one of `before`, where there is none
  rw [List.getElem?_append_left hlt, List.getElem?_eq_some_iff] at hy
  obtain ⟨_, rfl⟩ := hy
  rw [List.take_append_of_le_length (Nat.le_of_lt hlt)] at hj
  refine hs (before.take j) before[j] (before.drop (j + 1)) ?_ hj
  rw [List.getElem_cons_drop, List.take_append_drop]

theorem firstOffender_of_isLeast (hx : l[i]? = some x)
    (h : IsLeast (offendingPositions bad l) i) : FirstOffender bad l (l.take i) x := by
  obtain ⟨hi, rfl⟩ := List.getElem?_eq_some_iff.1 hx
  obtain ⟨⟨y, hy, hb⟩, hleast⟩ := h
  rw [hx, Option.some.injEq] at hy
  subst hy
  refine ⟨fun front z rest he hz => ?_, hb, l.drop (i + 1), ?_⟩
  · have hl : l = front ++ z :: (rest ++ l.drop i) := by
      rw [← List.cons_append, ← List.append_assoc, ← he, List.take_append_drop]
    have hlt : front.length < i := by
      have := congrArg List.length he
      rw [List.length_append, List.length_cons, List.length_take_of_le (Nat.le_of_lt hi)] at this
      omega
    have hmem : front.length ∈ offendingPositions bad l := ⟨z, by rw [hl]; simp, by rw [hl]; simpa⟩
    exact absurd (hleast hmem) (Nat.not_le.2 hlt)
  · rw [List.getElem_cons_drop, List.take_append_drop]

end Positions

/-! ## Bits and slots that fit -/

namespace UnitsFit

variable {known : Bit → Prop} {bits bits' : List Bit} {slots slots' : List Slot}

theorem perm (h : UnitsFit known bits slots) (hb : bits.Perm bits') (hs : slots.Perm slots') :
    UnitsFit known bits' slots' where
  known b hm := h.known b (hb.mem_iff.2 hm)
  bits_nodup := hb.nodup h.bits_nodup
  slots_nodup := hs.nodup h.slots_nodup

theorem sublist (h : UnitsFit known bits slots) (hb : bits'.Sublist bits)
    (hs : slots'.Sublist slots) : UnitsFit known bits' slots' where
  known b hm := h.known b (hb.subset hm)
  bits_nodup := hb.nodup h.bits_nodup
  slots_nodup := hs.nodup h.slots_nodup

end UnitsFit

/-- What is wrong with bits and slots, by positions: the bit at the least position that is unknown
or equals an earlier bit, or else, when the bits are as they should be, the slot at the least
position that equals an earlier slot. -/
theorem unitFault_iff {known : Bit → Prop} {bits : List Bit} {slots : List Slot}
    {e : CircuitError} :
    UnitFault known bits slots e ↔
      (∃ i b, IsLeast (offendingPositions (BadBit known) bits) i ∧ bits[i]? = some b ∧
        (¬ known b ∧ e = .unknownBit b ∨ known b ∧ e = .duplicateArgument (.bit b))) ∨
      ((∀ b ∈ bits, known b) ∧ bits.Nodup) ∧
        ∃ i s, IsLeast (offendingPositions RepeatedSlot slots) i ∧ slots[i]? = some s ∧
          e = .duplicateArgument (.slot s) := by
  rw [← spotless_badBit_iff]
  constructor
  · intro h
    cases h with
    | @unknownBit before b first unknown =>
      exact .inl ⟨_, b, first.isLeast.2, first.isLeast.1, .inl ⟨unknown, rfl⟩⟩
    | @repeatedBit before b first known_b =>
      exact .inl ⟨_, b, first.isLeast.2, first.isLeast.1, .inr ⟨known_b, rfl⟩⟩
    | @repeatedSlot before s bits_fit first =>
      exact .inr ⟨bits_fit, _, s, first.isLeast.2, first.isLeast.1, rfl⟩
  · rintro (⟨i, b, hi, hb, ⟨unknown, rfl⟩ | ⟨known_b, rfl⟩⟩ | ⟨bits_fit, i, s, hi, hs, rfl⟩)
    · exact .unknownBit (firstOffender_of_isLeast hb hi) unknown
    · exact .repeatedBit (firstOffender_of_isLeast hb hi) known_b
    · exact .repeatedSlot bits_fit (firstOffender_of_isLeast hs hi)

/-! ## Checking against a reachable circuit -/

/-- Checking bits and slots against a reachable circuit succeeds exactly if the bits are the
circuit's and neither bits nor slots repeat. Otherwise it reports the bit at the least position that
is unknown or equals an earlier bit, as unknown if it is both, and only if there is none, the slot
at the least position that equals an earlier slot. Whether it succeeds does not depend on the order
of bits and slots, and it still does when some of them are left out. -/
theorem Reachable.checkUnits_exactly {allowed : Change → Prop} {c : Circuit}
    (h : Reachable allowed c) (bits : List Bit) (slots : List Slot) :
    (c.checkUnits bits slots = .ok () ↔ (∀ b ∈ bits, b ∈ c.bits) ∧ bits.Nodup ∧ slots.Nodup) ∧
    (∀ e, c.checkUnits bits slots = .error e ↔
      (∃ i b, IsLeast {i | ∃ b, bits[i]? = some b ∧ (b ∉ c.bits ∨ b ∈ bits.take i)} i ∧
        bits[i]? = some b ∧
        (b ∉ c.bits ∧ e = .unknownBit b ∨ b ∈ c.bits ∧ e = .duplicateArgument (.bit b))) ∨
      ((∀ b ∈ bits, b ∈ c.bits) ∧ bits.Nodup) ∧
        ∃ i s, IsLeast {i | ∃ s, slots[i]? = some s ∧ s ∈ slots.take i} i ∧ slots[i]? = some s ∧
          e = .duplicateArgument (.slot s)) ∧
    (∀ bits' slots', bits.Perm bits' → slots.Perm slots' →
      (c.checkUnits bits slots = .ok () ↔ c.checkUnits bits' slots' = .ok ())) ∧
    ∀ bits' slots', bits'.Sublist bits → slots'.Sublist slots →
      c.checkUnits bits slots = .ok () → c.checkUnits bits' slots' = .ok () := by
  have hknown : (fun b => c.containsBit b = true) = (· ∈ c.bits) :=
    funext fun _ => propext h.tableAgrees.containsBit_iff_mem
  have hv (bits : List Bit) (slots : List Slot) :
      Verdict (c.checkUnits bits slots) (fun _ => UnitsFit (· ∈ c.bits) bits slots)
        (UnitFault (· ∈ c.bits) bits slots) := by
    rw [← hknown]
    exact verdict_checkUnits bits slots
  refine ⟨?_, fun e => ((hv bits slots).error_iff e).trans unitFault_iff,
    fun bits' slots' hb hs => ?_, fun bits' slots' hb hs hok => ?_⟩
  · rw [(hv bits slots).ok_iff]
    exact ⟨fun hf => ⟨hf.known, hf.bits_nodup, hf.slots_nodup⟩, fun ⟨hk, hb, hs⟩ => ⟨hk, hb, hs⟩⟩
  · rw [(hv bits slots).ok_iff, (hv bits' slots').ok_iff]
    exact ⟨fun hf => hf.perm hb hs, fun hf => hf.perm hb.symm hs.symm⟩
  · rw [(hv bits slots).ok_iff] at hok
    exact ((hv bits' slots').ok_iff ()).2 (hok.sublist hb hs)

/-- A bit of `threeBits`, one that it does not have, and the first bit again. -/
def mixedBits : List Bit := [⟨defaultRegister, 1⟩, ⟨"d", 0⟩, ⟨defaultRegister, 1⟩]

theorem threeBits_checkUnits :
    Reachable Change.Proper threeBits ∧
      threeBits.checkUnits mixedBits [⟨4⟩, ⟨4⟩] = .error (.unknownBit ⟨"d", 0⟩) ∧
      threeBits.checkUnits [⟨defaultRegister, 2⟩, ⟨defaultRegister, 0⟩] [⟨4⟩, ⟨0⟩] = .ok () ∧
      threeBits.checkUnits [⟨defaultRegister, 0⟩, ⟨defaultRegister, 2⟩] [⟨0⟩, ⟨4⟩] = .ok () ∧
      threeBits.checkUnits [⟨defaultRegister, 0⟩] [⟨4⟩] = .ok () := by
  have hr : Reachable Change.Proper threeBits := .source (.withBits 3)
  have hleast : IsLeast {i | ∃ b, mixedBits[i]? = some b ∧
      (b ∉ threeBits.bits ∨ b ∈ mixedBits.take i)} 1 := by
    refine ⟨⟨⟨"d", 0⟩, rfl, .inl (by decide)⟩, ?_⟩
    rintro (_ | j) ⟨b, hb, hbad⟩
    · cases hb
      exact absurd hbad (by decide)
    · omega
  have hok :
      threeBits.checkUnits [⟨defaultRegister, 2⟩, ⟨defaultRegister, 0⟩] [⟨4⟩, ⟨0⟩] = .ok () :=
    (hr.checkUnits_exactly _ _).1.2 (by decide)
  obtain ⟨-, -, hperm, hsublist⟩ := hr.checkUnits_exactly
    [⟨defaultRegister, 2⟩, ⟨defaultRegister, 0⟩] [⟨4⟩, ⟨0⟩]
  refine ⟨hr, ?_, hok, (hperm _ _ (.swap _ _ _) (.swap _ _ _)).1 hok,
    hsublist _ _ (.cons _ (.refl _)) (.cons_cons _ (.cons _ .slnil)) hok⟩
  exact ((hr.checkUnits_exactly mixedBits [⟨4⟩, ⟨4⟩]).2.1 _).2
    (.inl ⟨1, ⟨"d", 0⟩, hleast, rfl, .inl ⟨by decide, rfl⟩⟩)

end CallCircuit
