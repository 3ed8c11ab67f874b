import CallCircuit.Wasm.Exports

/-!
# Tables of functions

A `FunctionTable` is a map kept as a list whose names ascend. `FunctionTable.find?` is its view:

* `find?_insert`: what inserting does to the view;
* `Ascending.insert`: inserting keeps the order;
* `Ascending.mem_iff`, `Ascending.ext`: in a table in order, the view says what there is in the
  table, and tables in order with the same entries are equal.
-/

namespace CallCircuit.Wasm.FunctionTable

variable {table other : FunctionTable} {name n : String} {arity : Arity} {entry : String × Arity}

/-- The names ascend, so each occurs once. -/
def Ascending (table : FunctionTable) : Prop := table.Pairwise (·.1 < ·.1)

@[simp] theorem find?_nil (n : String) : find? [] n = none := rfl

theorem find?_cons (entry : String × Arity) (table : FunctionTable) (n : String) :
    find? (entry :: table) n = if n = entry.1 then some entry.2 else table.find? n := by
  rw [find?, List.lookup_cons]
  by_cases h : n = entry.1
  · rw [if_pos h, beq_iff_eq.2 h]
  · rw [if_neg h, beq_eq_false_iff_ne.2 h]
    rfl

theorem find?_insert (name : String) (arity : Arity) (table : FunctionTable) (n : String) :
    (insert name arity table).find? n = if n = name then some arity else table.find? n := by
  induction table with
  | nil => rw [insert, find?_cons, find?_nil]
  | cons entry table ih =>
    rw [insert]
    split
    · rw [find?_cons]
    · split
      · rename_i he
        rw [find?_cons, find?_cons, he]
        split <;> rfl
      · rename_i hne
        rw [find?_cons, find?_cons, ih]
        by_cases h : n = name
        · rw [if_pos h, if_pos h, if_neg (by rw [h]; exact hne)]
        · rw [if_neg h, if_neg h]

theorem mem_insert (h : entry ∈ insert name arity table) :
    entry = (name, arity) ∨ entry ∈ table := by
  induction table with
  | nil => exact .inl (List.mem_singleton.1 h)
  | cons first table ih =>
    rw [insert] at h
    split at h
    · exact List.mem_cons.1 h
    · split at h
      · exact (List.mem_cons.1 h).imp_right (List.mem_cons_of_mem first)
      · rcases List.mem_cons.1 h with rfl | h
        · exact .inr List.mem_cons_self
        · exact (ih h).imp_right (List.mem_cons_of_mem first)

theorem Ascending.insert (h : table.Ascending) (name : String) (arity : Arity) :
    (insert name arity table).Ascending := by
  induction table with
  | nil => exact List.pairwise_singleton _ _
  | cons first table ih =>
    have hp := List.pairwise_cons.1 h
    rw [FunctionTable.insert]
    split
    · rename_i hlt
      refine List.pairwise_cons.2 ⟨fun entry hm => ?_, h⟩
      rcases List.mem_cons.1 hm with rfl | hm
      · exact hlt
      · exact String.lt_trans hlt (hp.1 entry hm)
    · rename_i hge
      split
      · rename_i he
        exact List.pairwise_cons.2 ⟨fun entry hm => he ▸ hp.1 entry hm, hp.2⟩
      · rename_i hne
        have hlt : first.1 < name := Std.lt_of_le_of_ne (String.not_lt.1 hge) (Ne.symm hne)
        refine List.pairwise_cons.2 ⟨fun entry hm => ?_, ih hp.2⟩
        rcases mem_insert hm with rfl | hm
        · exact hlt
        · exact hp.1 entry hm

theorem Ascending.mem_iff (h : table.Ascending) :
    (name, arity) ∈ table ↔ table.find? name = some arity := by
  induction table with
  | nil => simp
  | cons first table ih =>
    have hp := List.pairwise_cons.1 h
    rw [find?_cons, List.mem_cons, ih hp.2]
    by_cases hn : name = first.1
    · have hnone : ¬ FunctionTable.find? table name = some arity := fun hf =>
        String.lt_irrefl name (hn ▸ hp.1 (name, arity) ((ih hp.2).2 hf))
      rw [if_pos hn, or_iff_left hnone, Option.some.injEq, Prod.ext_iff]
      exact ⟨fun e => e.2.symm, fun e => ⟨hn, e.symm⟩⟩
    · rw [if_neg hn, or_iff_right fun e => hn (congrArg Prod.fst e)]

theorem Ascending.nodup (h : table.Ascending) : table.Nodup :=
  h.imp fun {a b} hlt (e : a = b) => String.lt_irrefl b.1 (e ▸ hlt)

theorem Ascending.ext (h : table.Ascending) (h' : other.Ascending)
    (he : ∀ entry, entry ∈ table ↔ entry ∈ other) : table = other := by
  have hp : table.Perm other := (List.perm_ext_iff_of_nodup h.nodup h'.nodup).2 he
  exact hp.eq_of_pairwise (fun a b _ _ hab hba => absurd hba (String.lt_asymm hab)) h h'

end CallCircuit.Wasm.FunctionTable
