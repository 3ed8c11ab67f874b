import CallCircuit.Circuit.Basic
import CallCircuit.Json.Number

/-!
# The texts of operands

A bit and a slot are shown as a name with an index in brackets. The name of a bit may itself look
like that, but the digits of an index hold no bracket, so the last one shows where the index begins.
Only a bit of a register that is named as slots are shown can be taken for a slot.

Operands side by side have a comma and a blank between them. A name may hold both, but when none
does, the first comma with a blank after it shows where an operand ends.

* `indexed_inj`, `Operand.text_eq_iff`: which operands are shown alike;
* `Circuit.ReservesStates.text_inj`, `Circuit.ReservesStates.texts_inj`: which operands of a circuit
  are, alone and side by side.
-/

namespace CallCircuit

/-! ## Names with an index -/

theorem eq_nil_of_cons_eq_append {α : Type} {mid back back' : List α} {a : α} (h : a ∉ back)
    (e : a :: back = mid ++ a :: back') : mid = [] ∧ back = back' := by
  cases mid with
  | nil => exact ⟨rfl, (List.cons.inj e).2⟩
  | cons b mid =>
    exact absurd ((List.cons.inj e).2 ▸ List.mem_append_right mid List.mem_cons_self) h

/-- The last occurrence of an element says where to split a list. -/
theorem append_cons_inj_of_last {α : Type} {front front' back back' : List α} {a : α}
    (h : a ∉ back) (h' : a ∉ back') (e : front ++ a :: back = front' ++ a :: back') :
    front = front' ∧ back = back' := by
  rcases List.append_eq_append_iff.1 e with ⟨mid, rfl, hm⟩ | ⟨mid, rfl, hm⟩
  · obtain ⟨rfl, rfl⟩ := eq_nil_of_cons_eq_append h hm
    exact ⟨(List.append_nil front).symm, rfl⟩
  · obtain ⟨rfl, rfl⟩ := eq_nil_of_cons_eq_append h' hm
    exact ⟨List.append_nil front', rfl⟩

theorem toList_indexed (name : String) (index : UInt64) :
    (indexed name index).toList =
      name.toList ++ '[' :: (Nat.toDigits 10 index.toNat ++ [']']) := by
  show (name ++ "[" ++ Nat.repr index.toNat ++ "]").toList = _
  simp [Nat.toList_repr]

theorem notMem_digits {a : Char} (ha : a.isDigit = false) (hne : a ≠ ']') (n : Nat) :
    a ∉ Nat.toDigits 10 n ++ [']'] := by
  rw [List.mem_append, List.mem_singleton, not_or]
  refine ⟨fun h => ?_, hne⟩
  rw [Json.Number.isDigit_of_mem_toDigits n a h] at ha
  cases ha

theorem digits_inj {index index' : UInt64}
    (h : Nat.toDigits 10 index.toNat = Nat.toDigits 10 index'.toNat) : index = index' := by
  have h := congrArg (Nat.ofDigitChars 10 · 0) h
  simp only [Nat.ofDigitChars_ten_toDigits] at h
  exact UInt64.toNat_inj.1 h

/-- A name with an index is read in one way, whatever the name. -/
theorem indexed_inj {name name' : String} {index index' : UInt64} :
    indexed name index = indexed name' index' ↔ name = name' ∧ index = index' := by
  constructor
  · intro h
    rw [← String.toList_inj, toList_indexed, toList_indexed] at h
    have hbracket := notMem_digits (a := '[') rfl (by decide)
    obtain ⟨hname, hdigits⟩ := append_cons_inj_of_last (hbracket _) (hbracket _) h
    exact ⟨String.toList_inj.1 hname, digits_inj (List.append_cancel_right hdigits)⟩
  · rintro ⟨rfl, rfl⟩
    rfl

theorem Bit.text_inj {a b : Bit} : a.text = b.text ↔ a = b := by
  rw [Bit.text, Bit.text, indexed_inj, Bit.mk.injEq]

theorem Slot.text_inj {a b : Slot} : a.text = b.text ↔ a = b := by
  rw [Slot.text, Slot.text, indexed_inj, Slot.mk.injEq, and_iff_right rfl]

/-- The operands are a bit of a register that is named as slots are shown, and the slot of its
index. -/
def Operand.Collide (u v : Operand) : Prop :=
  ∃ index, u = .bit ⟨stateRegister, index⟩ ∧ v = .slot ⟨index⟩

/-- Two operands are shown alike only if they are the same or collide. -/
theorem Operand.text_eq_iff {u v : Operand} :
    u.text = v.text ↔ u = v ∨ u.Collide v ∨ v.Collide u := by
  constructor
  · intro h
    cases u with
    | bit a =>
      cases v with
      | bit b => exact .inl (congrArg bit (Bit.text_inj.1 h))
      | slot s =>
        obtain ⟨hr, hi⟩ := indexed_inj.1 h
        exact .inr (.inl ⟨s.index, by rw [← hr, ← hi], rfl⟩)
    | slot s =>
      cases v with
      | bit b =>
        obtain ⟨hr, hi⟩ := indexed_inj.1 h
        exact .inr (.inr ⟨s.index, by rw [hr, hi], rfl⟩)
      | slot s' => exact .inl (congrArg slot (Slot.text_inj.1 h))
  · rintro (rfl | ⟨index, rfl, rfl⟩ | ⟨index, rfl, rfl⟩)
    · rfl
    · rfl
    · rfl

/-! ## Operands of a circuit -/

/-- The operand is a bit of the circuit or a slot. Slots come as they are called for, so every slot
counts. -/
def Circuit.HasOperand (c : Circuit) : Operand → Prop
  | .bit b => c.containsBit b = true
  | .slot _ => True

theorem Circuit.exists_register_of_containsBit {c : Circuit} {b : Bit}
    (h : c.containsBit b = true) : ∃ r ∈ c.registers, r.name = b.register := by
  obtain ⟨r, hr, -⟩ := Option.any_eq_true .. |>.1 h
  exact ⟨r, List.mem_of_find?_eq_some hr, by simpa using List.find?_some hr⟩

/-- No register of the circuit is named as slots are shown. -/
def Circuit.ReservesStates (c : Circuit) : Prop := ∀ r ∈ c.registers, r.name ≠ stateRegister

theorem Circuit.ReservesStates.not_collide {c : Circuit} (h : c.ReservesStates) {u v : Operand}
    (hu : c.HasOperand u) : ¬ u.Collide v := by
  rintro ⟨index, rfl, rfl⟩
  obtain ⟨r, hr, hname⟩ := exists_register_of_containsBit hu
  exact h r hr hname

/-- The text of an operand of the circuit tells the operand. -/
theorem Circuit.ReservesStates.text_inj {c : Circuit} (h : c.ReservesStates) {u v : Operand}
    (hu : c.HasOperand u) (hv : c.HasOperand v) : u.text = v.text ↔ u = v := by
  rw [Operand.text_eq_iff, or_iff_left]
  exact not_or.2 ⟨h.not_collide hu, h.not_collide hv⟩

/-! ## Operands side by side -/

section Pairs

variable {α : Type} {a b : α}

/-- A list that begins with a pair is cut before it, within it or after it. -/
theorem pair_eq_append {front back rest : List α} (h : a :: b :: rest = front ++ back) :
    front = [] ∧ back = a :: b :: rest ∨ front = [a] ∧ back = b :: rest ∨
      ∃ mid, front = a :: b :: mid := by
  cases front with
  | nil => exact .inl ⟨rfl, h.symm⟩
  | cons x front =>
    obtain ⟨rfl, ht⟩ := List.cons.inj h
    cases front with
    | nil => exact .inr (.inl ⟨rfl, ht.symm⟩)
    | cons y mid =>
      obtain ⟨rfl, -⟩ := List.cons.inj ht
      exact .inr (.inr ⟨mid, rfl⟩)

/-- A pair stands in the first of two lists if it stands in both together, unless it can begin or
end in the second one. -/
theorem pair_infix_of_append {front back : List α} (h : [a, b] <:+: front ++ back) (ha : a ∉ back)
    (hb : back.head? ≠ some b) : [a, b] <:+: front := by
  obtain ⟨before, rest, e⟩ := h
  rw [List.append_assoc] at e
  rcases List.append_eq_append_iff.1 e with ⟨mid, rfl, hm⟩ | ⟨mid, rfl, hm⟩
  · rcases pair_eq_append hm with ⟨-, rfl⟩ | ⟨-, rfl⟩ | ⟨mid', rfl⟩
    · exact absurd List.mem_cons_self ha
    · exact absurd rfl hb
    · exact ⟨before, mid', by simp⟩
  · exact absurd (by simp [hm]) ha

theorem eq_nil_of_pair_eq_append {front mid back back' : List α} (hab : a ≠ b)
    (h : ¬ [a, b] <:+: front ++ mid) (e : a :: b :: back = mid ++ a :: b :: back') :
    mid = [] ∧ back = back' := by
  rcases pair_eq_append e with ⟨rfl, hm⟩ | ⟨-, hm⟩ | ⟨mid', rfl⟩
  · exact ⟨rfl, (List.cons.inj (List.cons.inj hm).2).2.symm⟩
  · exact absurd (List.cons.inj hm).1 hab
  · exact absurd ⟨front, mid', by simp⟩ h

/-- The first occurrence of a pair says where to split a list. -/
theorem append_pair_inj {front front' back back' : List α} (hab : a ≠ b)
    (h : ¬ [a, b] <:+: front) (h' : ¬ [a, b] <:+: front')
    (e : front ++ a :: b :: back = front' ++ a :: b :: back') : front = front' ∧ back = back' := by
  rcases List.append_eq_append_iff.1 e with ⟨mid, rfl, hm⟩ | ⟨mid, rfl, hm⟩
  · obtain ⟨rfl, rfl⟩ := eq_nil_of_pair_eq_append hab h' hm
    exact ⟨(List.append_nil front).symm, rfl⟩
  · obtain ⟨rfl, rfl⟩ := eq_nil_of_pair_eq_append hab h hm
    exact ⟨List.append_nil front', rfl⟩

/-- Lists are read off what they are together, each with a pair after it, if none has the pair in
it. -/
theorem flatMap_pair_inj (hab : a ≠ b) {ls ls' : List (List α)} (h : ∀ l ∈ ls, ¬ [a, b] <:+: l)
    (h' : ∀ l ∈ ls', ¬ [a, b] <:+: l)
    (e : ls.flatMap (· ++ [a, b]) = ls'.flatMap (· ++ [a, b])) : ls = ls' := by
  induction ls generalizing ls' with
  | nil =>
    cases ls' with
    | nil => rfl
    | cons l' ls' => simp at e
  | cons l ls ih =>
    cases ls' with
    | nil => simp at e
    | cons l' ls' =>
      simp only [List.flatMap_cons, List.append_assoc, List.cons_append, List.nil_append] at e
      obtain ⟨rfl, hls⟩ := append_pair_inj hab (h l List.mem_cons_self) (h' l' List.mem_cons_self) e
      rw [ih (fun l hl => h l (List.mem_cons_of_mem _ hl))
        (fun l hl => h' l (List.mem_cons_of_mem _ hl)) hls]

theorem intercalate_append (separator : List α) {ls : List (List α)} (h : ls ≠ []) :
    separator.intercalate ls ++ separator = ls.flatMap (· ++ separator) := by
  induction ls with
  | nil => exact absurd rfl h
  | cons l ls ih =>
    rw [List.flatMap_cons]
    cases ls with
    | nil => simp
    | cons l' ls => rw [List.intercalate_cons_cons, List.append_assoc, ih (List.cons_ne_nil l' ls)]

theorem intercalate_eq_nil_iff (separator : List α) {ls : List (List α)} (h : ∀ l ∈ ls, l ≠ []) :
    separator.intercalate ls = [] ↔ ls = [] := by
  cases ls with
  | nil => simp
  | cons l ls =>
    have hl := h l List.mem_cons_self
    cases ls with
    | nil => simp [hl]
    | cons l' ls => simp [List.intercalate_cons_cons, hl]

/-- Lists are read off what they are together, with a pair between any two, if none is empty or has
the pair in it. -/
theorem intercalate_pair_inj (hab : a ≠ b) {ls ls' : List (List α)}
    (h : ∀ l ∈ ls, l ≠ [] ∧ ¬ [a, b] <:+: l) (h' : ∀ l ∈ ls', l ≠ [] ∧ ¬ [a, b] <:+: l)
    (e : [a, b].intercalate ls = [a, b].intercalate ls') : ls = ls' := by
  have hnil := intercalate_eq_nil_iff [a, b] fun l hl => (h l hl).1
  have hnil' := intercalate_eq_nil_iff [a, b] fun l hl => (h' l hl).1
  by_cases hl : ls = []
  · rw [hl, hnil'.1 (e.symm.trans (hnil.2 hl))]
  · have hl' : ls' ≠ [] := fun hl' => hl (hnil.1 (e.trans (hnil'.2 hl')))
    refine flatMap_pair_inj hab (fun l hl => (h l hl).2) (fun l hl => (h' l hl).2) ?_
    rw [← intercalate_append _ hl, ← intercalate_append _ hl', e]

end Pairs

/-- No register of the circuit has in its name what stands between operands. -/
def Circuit.SeparatesOperands (c : Circuit) : Prop :=
  ∀ r ∈ c.registers, ¬ [',', ' '] <:+: r.name.toList

theorem separator_infix_of_indexed {name : String} {index : UInt64}
    (h : [',', ' '] <:+: (indexed name index).toList) : [',', ' '] <:+: name.toList := by
  rw [toList_indexed] at h
  refine pair_infix_of_append h ?_ (by simp)
  rw [List.mem_cons, not_or]
  exact ⟨by decide, notMem_digits rfl (by decide) _⟩

theorem Circuit.SeparatesOperands.not_infix_text {c : Circuit} (h : c.SeparatesOperands)
    {u : Operand} (hu : c.HasOperand u) : ¬ [',', ' '] <:+: u.text.toList := by
  intro hi
  cases u with
  | bit b =>
    obtain ⟨r, hr, hname⟩ := exists_register_of_containsBit hu
    exact h r hr (hname ▸ separator_infix_of_indexed hi)
  | slot s => exact absurd (separator_infix_of_indexed hi) (by decide)

theorem toList_text_ne_nil (u : Operand) : u.text.toList ≠ [] := by
  cases u with
  | bit b => simp [Operand.text, Bit.text, toList_indexed]
  | slot s => simp [Operand.text, Slot.text, toList_indexed]

theorem Circuit.ReservesStates.map_text_inj {c : Circuit} (h : c.ReservesStates)
    {args args' : List Operand} (hu : ∀ u ∈ args, c.HasOperand u)
    (hu' : ∀ u ∈ args', c.HasOperand u)
    (e : args.map (String.toList ∘ Operand.text) = args'.map (String.toList ∘ Operand.text)) :
    args = args' := by
  induction args generalizing args' with
  | nil => exact (List.map_eq_nil_iff.1 e.symm).symm
  | cons u args ih =>
    cases args' with
    | nil => cases e
    | cons u' args' =>
      rw [List.forall_mem_cons] at hu hu'
      obtain ⟨htext, hargs⟩ := List.cons.inj e
      rw [(h.text_inj hu.1 hu'.1).1 (String.toList_inj.1 htext), ih hu.2 hu'.2 hargs]

/-- Operands of the circuit side by side are told by their texts when no name has what stands
between them. -/
theorem Circuit.ReservesStates.texts_inj {c : Circuit} (h : c.ReservesStates)
    (hs : c.SeparatesOperands) {args args' : List Operand} (hu : ∀ u ∈ args, c.HasOperand u)
    (hu' : ∀ u ∈ args', c.HasOperand u)
    (e : ", ".intercalate (args.map Operand.text) = ", ".intercalate (args'.map Operand.text)) :
    args = args' := by
  have hfit {args : List Operand} (hu : ∀ u ∈ args, c.HasOperand u) :
      ∀ l ∈ args.map (String.toList ∘ Operand.text), l ≠ [] ∧ ¬ [',', ' '] <:+: l := by
    rw [List.forall_mem_map]
    exact fun u hm => ⟨toList_text_ne_nil u, hs.not_infix_text (hu u hm)⟩
  rw [← String.toList_inj, String.toList_intercalate, String.toList_intercalate, List.map_map,
    List.map_map] at e
  exact h.map_text_inj hu hu' (intercalate_pair_inj (by decide) (hfit hu) (hfit hu') e)

end CallCircuit
