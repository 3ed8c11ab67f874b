import Mathlib.Data.List.Nodup
import CallCircuit.Proofs.Reordering

/-!
# The register table and the bit list

A circuit keeps its bits twice: in the sizes of its registers and in a flat list. The look-up of a bit
asks the first register of its name, which is the only one, so it finds exactly the bits of the list.
Registers are added behind the others, so neither side ever loses what it has.

* `Register.mem_bits_iff`, `Register.nodup_bits`: the bits of a single register;
* `Circuit.TableAgrees.nodup_bits`, `Circuit.TableAgrees.containsBit_iff_mem`: the bits of a circuit
  whose register table agrees;
* `Circuit.TableAgrees.after`, `Circuit.TableAgrees.bits_mono_after`: what any run of changes keeps;
* `Reachable.bits_tabulated`: all of this holds of every reachable circuit.
-/

namespace CallCircuit

open Edit

/-! ## The bits of a register -/

namespace Register

theorem length_bits (r : Register) : r.bits.length = r.size.toNat := by
  rw [bits, List.length_map, List.length_range]

theorem mem_bits_iff {r : Register} {b : Bit} : b ∈ r.bits ↔ r.contains b = true := by
  rw [bits, List.mem_map, contains, Bool.and_eq_true, beq_iff_eq, decide_eq_true_iff]
  constructor
  · rintro ⟨i, hi, rfl⟩
    rw [List.mem_range] at hi
    have hs := r.size.toNat_lt_size
    refine ⟨rfl, ?_⟩
    rwa [UInt64.lt_iff_toNat_lt, UInt64.toNat_ofNat_of_lt' (Nat.lt_trans hi hs)]
  · rintro ⟨hn, hi⟩
    refine ⟨b.index.toNat, List.mem_range.2 (UInt64.lt_iff_toNat_lt.1 hi), ?_⟩
    rw [UInt64.ofNat_toNat, ← hn]

theorem nodup_bits (r : Register) : r.bits.Nodup := by
  have hs := r.size.toNat_lt_size
  refine List.nodup_range.map_on fun i hi j hj h => ?_
  rw [List.mem_range] at hi hj
  have h := congrArg (·.index.toNat) h
  simpa only [UInt64.toNat_ofNat_of_lt' (Nat.lt_trans hi hs),
    UInt64.toNat_ofNat_of_lt' (Nat.lt_trans hj hs)] using h

end Register

/-! ## The bits of a circuit -/

namespace Circuit.TableAgrees

variable {c : Circuit} {changes : List Change}

theorem mem_bits_iff (h : c.TableAgrees) {b : Bit} : b ∈ c.bits ↔ b.LiesIn c.registers := by
  simp only [h.bits, List.mem_flatMap, Register.mem_bits_iff, Bit.LiesIn]

/-- Registers of different names have no bit in common. -/
theorem nodup_bits (h : c.TableAgrees) : c.bits.Nodup := by
  rw [h.bits, List.nodup_flatMap]
  refine ⟨fun r _ => r.nodup_bits, (List.pairwise_map.1 h.names).imp fun {r s} hne => ?_⟩
  intro b hr hs
  rw [Register.mem_bits_iff, Register.contains, Bool.and_eq_true, beq_iff_eq] at hr hs
  exact hne (hr.1.symm.trans hs.1)

theorem length_bits (h : c.TableAgrees) :
    c.bits.length = (c.registers.map (·.size.toNat)).sum := by
  simp only [h.bits, List.length_flatMap, Register.length_bits]

/-- The look-up of a bit by the name of its register finds the bits of the list. -/
theorem containsBit_iff_mem (h : c.TableAgrees) {b : Bit} :
    c.containsBit b = true ↔ b ∈ c.bits :=
  (Circuit.containsBit_iff h.names).trans h.mem_bits_iff.symm

/-! ## Later circuits -/

theorem after (h : c.TableAgrees) (changes : List Change) : (c.after changes).TableAgrees := by
  induction changes generalizing c with
  | nil => exact h
  | cons change changes ih => exact ih ((change.makes c).tableAgrees h)

theorem bits_mono_after (h : c.TableAgrees) (changes : List Change) :
    c.bits <+: (c.after changes).bits := by
  obtain ⟨added, hr⟩ := c.registers_mono_after changes
  rw [h.bits, (h.after changes).bits, ← hr, List.flatMap_append]
  exact List.prefix_append _ _

theorem register?_after (h : c.TableAgrees) (changes : List Change) {r : Register}
    (hr : r ∈ c.registers) : (c.after changes).register? r.name = some r :=
  (Circuit.register?_eq_some_iff (h.after changes).names).2
    ⟨(c.registers_mono_after changes).subset hr, rfl⟩

end Circuit.TableAgrees

/-- A register that has been added is in the table. -/
theorem Change.mem_registers_of_added {c : Circuit} {name : String} {size : UInt64}
    (h : ((Change.addRegister name size).edit.apply c).result = .ok ()) :
    ⟨name, size⟩ ∈ ((Change.addRegister name size).edit.apply c).value.registers := by
  rw [edit, (addRegister_yields name size c).discard.apply] at h ⊢
  by_cases hs : (c.register? name).isSome
  · rw [if_pos hs] at h
    cases h
  · rw [if_neg hs] at h ⊢
    by_cases hf : Register.Fits ⟨name, size⟩
    · rw [if_pos hf]
      exact List.mem_append_right _ (List.mem_singleton_self _)
    · rw [if_neg hf] at h
      cases h

/-- In a reachable circuit the registers have names of their own, the list of bits is theirs in order
and without repetition, and looking a bit up finds exactly the bits of the list. Later circuits
extend both lists, and a register that has ever been there or been added can be looked up in them
with its size. -/
theorem Reachable.bits_tabulated {allowed : Change → Prop} {c : Circuit}
    (h : Reachable allowed c) :
    (c.registers.map Register.name).Nodup ∧
    c.bits = c.registers.flatMap Register.bits ∧
    c.bits.Nodup ∧
    c.bits.length = (c.registers.map (·.size.toNat)).sum ∧
    (∀ b, c.containsBit b = true ↔ b ∈ c.bits) ∧
    ∀ changes : List Change,
      c.registers <+: (c.after changes).registers ∧
      c.bits <+: (c.after changes).bits ∧
      (∀ r ∈ c.registers, (c.after changes).register? r.name = some r) ∧
      ∀ name size, ((Change.addRegister name size).edit.apply c).result = .ok () →
        (c.after (.addRegister name size :: changes)).register? name = some ⟨name, size⟩ := by
  have ht := h.tableAgrees
  refine ⟨ht.names, ht.bits, ht.nodup_bits, ht.length_bits, fun b => ht.containsBit_iff_mem,
    fun changes => ⟨c.registers_mono_after changes, ht.bits_mono_after changes,
      fun r hr => ht.register?_after changes hr, fun name size hadded => ?_⟩⟩
  have ht' := ((Change.addRegister name size).makes c).tableAgrees ht
  exact ht'.register?_after changes (Change.mem_registers_of_added hadded)

/-- A register of no bits, one whose name is taken, a call, and one more register. -/
def registerRun : List Change :=
  [.addRegister "empty" 0, .addRegister defaultRegister 5, guardedCall, .addRegister "d" 2]

theorem threeBits_bits_tabulated :
    Reachable Change.Proper threeBits ∧
      ((Change.addRegister "e" 1).edit.apply threeBits).result = .ok () ∧
      threeBits.bits.Nodup ∧ threeBits.bits.length = 3 ∧
      (∀ b, threeBits.containsBit b = true ↔ b ∈ threeBits.bits) ∧
      threeBits.bits <+: (threeBits.after registerRun).bits ∧
      (threeBits.after registerRun).register? defaultRegister = some ⟨defaultRegister, 3⟩ ∧
      (threeBits.after (.addRegister "e" 1 :: registerRun)).register? "e" = some ⟨"e", 1⟩ := by
  have hr : Reachable Change.Proper threeBits := .source (.withBits 3)
  have hadded : ((Change.addRegister "e" 1).edit.apply threeBits).result = .ok () := by
    decide +kernel
  obtain ⟨-, -, hnodup, hlength, hlookup, hlater⟩ := hr.bits_tabulated
  obtain ⟨-, hbits, hkept, hnew⟩ := hlater registerRun
  exact ⟨hr, hadded, hnodup, hlength, hlookup, hbits,
    hkept ⟨defaultRegister, 3⟩ (List.mem_singleton_self _), hnew "e" 1 hadded⟩

end CallCircuit
