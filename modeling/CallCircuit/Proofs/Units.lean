import CallCircuit.Proofs.Verdict

/-!
# The units of a circuit

When registers have names of their own, a bit is the circuit's exactly if it lies in one of the
registers (`Circuit.containsBit_iff`). `UnitFault` says what is wrong with a list of bits and a list
of slots: the first bit that is unknown or repeated, or else the first slot that is repeated.

* `verdict_checkUnits`: this is what `Circuit.checkUnits` finds.
-/

namespace CallCircuit

/-- The bit lies in one of these registers. -/
def Bit.LiesIn (b : Bit) (registers : List Register) : Prop := ∃ r ∈ registers, r.contains b

/-! ## The register table -/

namespace Circuit

variable {c : Circuit}

/-- No two registers of the circuit have the same name. -/
def HasDistinctNames (c : Circuit) : Prop := (c.registers.map Register.name).Nodup

theorem register?_eq_none_iff {name : String} :
    c.register? name = none ↔ name ∉ c.registers.map Register.name := by
  simp [register?, List.find?_eq_none]

theorem register?_eq_some_iff (hc : c.HasDistinctNames) {name : String} {r : Register} :
    c.register? name = some r ↔ r ∈ c.registers ∧ r.name = name := by
  unfold HasDistinctNames at hc
  rw [register?]
  induction hl : c.registers generalizing c with
  | nil => simp
  | cons s registers ih =>
    rw [hl, List.map_cons, List.nodup_cons] at hc
    by_cases hs : s.name = name
    · rw [List.find?_cons_of_pos (by simpa using hs), Option.some.injEq, List.mem_cons]
      constructor
      · rintro rfl
        exact ⟨.inl rfl, hs⟩
      · intro hx
        rcases hx with ⟨rfl | hr, hn⟩
        · rfl
        · exact absurd (List.mem_map.2 ⟨r, hr, hn.trans hs.symm⟩) hc.1
    · rw [List.find?_cons_of_neg (by simpa using hs), ih (c := { c with registers }) hc.2 rfl,
        List.mem_cons]
      constructor
      · exact fun h => ⟨.inr h.1, h.2⟩
      · intro hx
        rcases hx with ⟨rfl | hr, hn⟩
        · exact absurd hn hs
        · exact ⟨hr, hn⟩

theorem containsBit_iff (hc : c.HasDistinctNames) {b : Bit} :
    c.containsBit b = true ↔ b.LiesIn c.registers := by
  simp only [containsBit, Option.any_eq_true, register?_eq_some_iff hc, Bit.LiesIn]
  constructor
  · intro hx
    obtain ⟨r, ⟨hr, -⟩, hb⟩ := hx
    exact ⟨r, hr, hb⟩
  · intro hx
    obtain ⟨r, hr, hb⟩ := hx
    have hn : b.register = r.name := by simp [Register.contains] at hb; exact hb.1
    exact ⟨r, ⟨hr, hn.symm⟩, hb⟩

theorem containsBit_eq (hc : c.HasDistinctNames) :
    (fun b => c.containsBit b = true) = (·.LiesIn c.registers) :=
  funext fun _ => propext (containsBit_iff hc)

end Circuit

/-! ## The first bit or slot that is wrong -/

/-- The bit is unknown or is among those before it. -/
def BadBit (known : Bit → Prop) (before : List Bit) (b : Bit) : Prop := ¬ known b ∨ b ∈ before

/-- The slot is among those before it. -/
def RepeatedSlot (before : List Slot) (s : Slot) : Prop := s ∈ before

/-- All bits are known, and no bit and no slot occurs twice. -/
structure UnitsFit (known : Bit → Prop) (bits : List Bit) (slots : List Slot) : Prop where
  known : ∀ b ∈ bits, known b
  bits_nodup : bits.Nodup
  slots_nodup : slots.Nodup

/-- What is wrong with bits and slots, where bits come first. A bit that is unknown and repeated
is unknown. -/
inductive UnitFault (known : Bit → Prop) (bits : List Bit) (slots : List Slot) :
    CircuitError → Prop where
  | unknownBit {before : List Bit} {b : Bit} (first : FirstOffender (BadBit known) bits before b)
      (unknown : ¬ known b) : UnitFault known bits slots (.unknownBit b)
  | repeatedBit {before : List Bit} {b : Bit} (first : FirstOffender (BadBit known) bits before b)
      (known_b : known b) : UnitFault known bits slots (.duplicateArgument (.bit b))
  | repeatedSlot {before : List Slot} {s : Slot} (bits_fit : Spotless (BadBit known) bits)
      (first : FirstOffender RepeatedSlot slots before s) :
      UnitFault known bits slots (.duplicateArgument (.slot s))

theorem spotless_badBit_iff {known : Bit → Prop} {bits : List Bit} :
    Spotless (BadBit known) bits ↔ (∀ b ∈ bits, known b) ∧ bits.Nodup := by
  unfold BadBit
  rw [spotless_or, spotless_iff_forall, spotless_iff_nodup]
  simp

/-- The error for a bit that is not as it should be. -/
def BitError (known : Bit → Prop) (b : Bit) (e : CircuitError) : Prop :=
  ¬ known b ∧ .unknownBit b = e ∨ known b ∧ .duplicateArgument (.bit b) = e

/-- The bit is unknown, is among those before it or has been seen. -/
def BadBitAfter (known : Bit → Prop) (seen before : List Bit) (b : Bit) : Prop :=
  BadBit known before b ∨ b ∈ seen

theorem badBitAfter_cons (known : Bit → Prop) (seen : List Bit) (b : Bit) :
    (fun before => BadBitAfter known seen (b :: before)) = BadBitAfter known (b :: seen) := by
  funext before x
  simp only [BadBitAfter, BadBit, List.mem_cons, eq_iff_iff]
  grind

variable {c : Circuit}

theorem verdict_checkBits (seen bits : List Bit) :
    Verdict (c.checkBits seen bits)
      (fun _ => Spotless (BadBitAfter (c.containsBit ·) seen) bits ∧ True)
      fun e => Stops (BadBitAfter (c.containsBit ·) seen) (BitError (c.containsBit ·)) bits e ∨
        Spotless (BadBitAfter (c.containsBit ·) seen) bits ∧ False := by
  induction bits generalizing seen with
  | nil => exact ⟨fun _ => by simp [Circuit.checkBits], fun _ => by simp [Circuit.checkBits, Stops]⟩
  | cons b bits ih =>
    unfold Circuit.checkBits
    by_cases hk : c.containsBit b
    · by_cases hs : b ∈ seen
      · simp only [hk, Bool.not_true, Bool.false_eq_true, ↓reduceIte, List.contains_iff_mem, hs]
        exact .scan_stop (.inr hs) ((Verdict.error _).congr (by simp) (by simp [BitError, hk]))
      · simp only [hk, Bool.not_true, Bool.false_eq_true, ↓reduceIte, List.contains_iff_mem, hs]
        refine .scan_step (by simp [BadBitAfter, BadBit, hk, hs]) ?_
        rw [badBitAfter_cons]
        exact ih (b :: seen)
    · simp only [hk, Bool.not_false, ↓reduceIte]
      exact .scan_stop (.inl (.inl hk)) ((Verdict.error _).congr (by simp) (by simp [BitError, hk]))

/-- The slot is among those before it or has been seen. -/
def RepeatedSlotAfter (seen before : List Slot) (s : Slot) : Prop :=
  RepeatedSlot before s ∨ s ∈ seen

theorem repeatedSlotAfter_cons (seen : List Slot) (s : Slot) :
    (fun before => RepeatedSlotAfter seen (s :: before)) = RepeatedSlotAfter (s :: seen) := by
  funext before x
  simp only [RepeatedSlotAfter, RepeatedSlot, List.mem_cons, eq_iff_iff]
  grind

theorem verdict_checkSlots (seen slots : List Slot) :
    Verdict (Circuit.checkSlots seen slots)
      (fun _ => Spotless (RepeatedSlotAfter seen) slots ∧ True)
      fun e =>
        Stops (RepeatedSlotAfter seen) (fun s e => .duplicateArgument (.slot s) = e) slots e ∨
          Spotless (RepeatedSlotAfter seen) slots ∧ False := by
  induction slots generalizing seen with
  | nil =>
    exact ⟨fun _ => by simp [Circuit.checkSlots], fun _ => by simp [Circuit.checkSlots, Stops]⟩
  | cons s slots ih =>
    unfold Circuit.checkSlots
    by_cases hs : s ∈ seen
    · simp only [List.contains_iff_mem, hs, ↓reduceIte]
      exact .scan_stop (.inr hs) ((Verdict.error _).congr (by simp) (by simp))
    · simp only [List.contains_iff_mem, hs, ↓reduceIte]
      refine .scan_step (by simp [RepeatedSlotAfter, RepeatedSlot, hs]) ?_
      rw [repeatedSlotAfter_cons]
      exact ih (s :: seen)

theorem verdict_checkUnits (bits : List Bit) (slots : List Slot) :
    Verdict (c.checkUnits bits slots) (fun _ => UnitsFit (c.containsBit ·) bits slots)
      (UnitFault (c.containsBit ·) bits slots) := by
  have hb : BadBitAfter (c.containsBit ·) [] = BadBit (c.containsBit ·) := by
    funext before b
    simp [BadBitAfter]
  have hs : RepeatedSlotAfter [] = RepeatedSlot := by
    funext before s
    simp [RepeatedSlotAfter]
  have h := (verdict_checkBits (c := c) [] bits).bind fun _ _ => verdict_checkSlots [] slots
  rw [hb, hs] at h
  refine h.congr (fun _ => ?_) fun e => ?_
  · rw [show Spotless RepeatedSlot slots ↔ slots.Nodup from spotless_iff_nodup]
    simp only [spotless_badBit_iff, and_true, exists_const]
    exact ⟨fun ⟨⟨hk, hb⟩, hs⟩ => ⟨hk, hb, hs⟩, fun h => ⟨⟨h.known, h.bits_nodup⟩, h.slots_nodup⟩⟩
  · simp only [and_false, or_false, and_true, exists_const]
    constructor
    · intro hx
      rcases hx with ⟨before, b, hf, ⟨hu, rfl⟩ | ⟨hk, rfl⟩⟩ | ⟨hb, before, s, hf, rfl⟩
      · exact .unknownBit hf hu
      · exact .repeatedBit hf hk
      · exact .repeatedSlot hb hf
    · intro hx
      cases hx with
      | unknownBit first unknown => exact .inl ⟨_, _, first, .inl ⟨unknown, rfl⟩⟩
      | repeatedBit first known_b => exact .inl ⟨_, _, first, .inr ⟨known_b, rfl⟩⟩
      | repeatedSlot bits_fit first => exact .inr ⟨bits_fit, _, _, first, rfl⟩

end CallCircuit
