import CallCircuit.Proofs.Edits
import CallCircuit.Proofs.FunctionTable
import Mathlib.Data.List.Induction

/-!
# The exports of a module

The payloads of a file add up to three sequences (`IndexSpaces.Accumulates`), and an export leads
through them to a signature (`IndexSpaces.Resolves`). A circuit can call an export whose signature
is `Signature.Callable`; of exports with one name the last such counts (`IndexSpaces.LastOffer`).

* `accumulates_iff`: the sequences that the payloads of a file give are the accumulated ones;
* `verdict_collect`: collecting exports stops at the first that leads nowhere;
* `tabulates_iff`: else it ends with the one table that belongs to the exports;
* `verdict_exportTable`: which modules have a table, and what is wrong with the others.
-/

namespace CallCircuit.Wasm

open Update (Yields)

/-! ## The sequences that indices refer to -/

namespace IndexSpaces

/-- What payloads add up to, read one after the other. Imports other than functions take no
index, and types other than function types do. -/
inductive Accumulates : List Payload → IndexSpaces → Prop where
  | start : Accumulates [] ⟨[], [], []⟩
  | types {payloads : List Payload} {m : IndexSpaces} (h : Accumulates payloads m)
      (entries : List (Option Signature)) :
      Accumulates (payloads ++ [.types entries]) { m with types := m.types ++ entries }
  | imports {payloads : List Payload} {m : IndexSpaces} (h : Accumulates payloads m)
      (entries : List (Option UInt32)) :
      Accumulates (payloads ++ [.imports entries])
        { m with functions := m.functions ++ entries.filterMap id }
  | functions {payloads : List Payload} {m : IndexSpaces} (h : Accumulates payloads m)
      (entries : List UInt32) :
      Accumulates (payloads ++ [.functions entries])
        { m with functions := m.functions ++ entries }
  | exports {payloads : List Payload} {m : IndexSpaces} (h : Accumulates payloads m)
      (entries : List (Option (String × UInt32))) :
      Accumulates (payloads ++ [.exports entries])
        { m with exports := m.exports ++ entries.filterMap id }
  | other {payloads : List Payload} {m : IndexSpaces} (h : Accumulates payloads m) :
      Accumulates (payloads ++ [.other]) m

variable {payloads : List Payload} {m : IndexSpaces} {int : ValueType} {name : String}
  {index : UInt32} {s : Signature}

theorem accumulates_ofPayloads (payloads : List Payload) :
    Accumulates payloads (ofPayloads payloads) := by
  -- from the last payload backwards, as the sequences grow at their ends
  induction payloads using List.reverseRecOn with
  | nil => exact .start
  | append_singleton payloads payload ih =>
    cases payload with
    | types entries => simpa [ofPayloads] using ih.types entries
    | imports entries => simpa [ofPayloads] using ih.imports entries
    | functions entries => simpa [ofPayloads] using ih.functions entries
    | exports entries => simpa [ofPayloads] using ih.exports entries
    | other => simpa [ofPayloads] using ih.other

theorem accumulates_iff : Accumulates payloads m ↔ m = ofPayloads payloads := by
  constructor
  · intro h
    induction h with
    | start => rfl
    | types _ _ ih | imports _ _ ih | functions _ _ ih | exports _ _ ih | other _ ih =>
      simp [ih, ofPayloads]
  · rintro rfl
    exact accumulates_ofPayloads payloads

/-! ## From an export to a signature -/

/-- The function at this index has this signature. -/
def Resolves (m : IndexSpaces) (index : UInt32) (s : Signature) : Prop :=
  ∃ typeIndex, m.functions[index.toNat]? = some typeIndex ∧
    m.types[typeIndex.toNat]? = some (some s)

/-- The function index of the export, or the type index that it leads to, leads nowhere. -/
def Dangling (m : IndexSpaces) (_ : List (String × UInt32)) (e : String × UInt32) : Prop :=
  ∀ s, ¬ m.Resolves e.2 s

/-- The error for an export that leads nowhere. -/
inductive DanglingError (m : IndexSpaces) : String × UInt32 → ModuleError → Prop where
  | function {name : String} {index : UInt32} (missing : m.functions[index.toNat]? = none) :
      DanglingError m (name, index) (.unknownFunction name index)
  | type {name : String} {index typeIndex : UInt32}
      (found : m.functions[index.toNat]? = some typeIndex)
      (missing : ∀ s, m.types[typeIndex.toNat]? ≠ some (some s)) :
      DanglingError m (name, index) (.unknownType name typeIndex)

theorem Resolves.unique {s' : Signature} (h : m.Resolves index s) (h' : m.Resolves index s') :
    s = s' := by
  obtain ⟨typeIndex, hf, ht⟩ := h
  obtain ⟨_, hf', ht'⟩ := h'
  cases hf.symm.trans hf'
  exact Option.some.inj (Option.some.inj (ht.symm.trans ht'))

theorem verdict_unknownType {typeIndex : UInt32}
    (found : m.functions[index.toNat]? = some typeIndex)
    (missing : ∀ s, m.types[typeIndex.toNat]? ≠ some (some s)) :
    Verdict (.error (.unknownType name typeIndex)) (m.Resolves index)
      (m.DanglingError (name, index)) := by
  refine (Verdict.error _).congr (fun s => ?_) fun e => ?_
  · simp [Resolves, found, missing]
  · constructor
    · rintro rfl
      exact .type found missing
    · intro he
      cases he with
      | function none => exact absurd (found.symm.trans none) nofun
      | type found' _ =>
        cases found.symm.trans found'
        rfl

theorem verdict_signature (m : IndexSpaces) (name : String) (index : UInt32) :
    Verdict (m.signature name index) (m.Resolves index) (m.DanglingError (name, index)) := by
  unfold signature
  cases hf : m.functions[index.toNat]? with
  | none =>
    refine (Verdict.error _).congr (fun s => by simp [Resolves, hf]) fun e => ?_
    constructor
    · rintro rfl
      exact .function hf
    · intro he
      cases he with
      | function _ => rfl
      | type found _ => exact absurd (hf.symm.trans found) nofun
  | some typeIndex =>
    cases ht : m.types[typeIndex.toNat]? with
    | none =>
      simp only [ht]
      exact verdict_unknownType hf (by simp [ht])
    | some entry =>
      cases entry with
      | none =>
        simp only [ht]
        exact verdict_unknownType hf (by simp [ht])
      | some s =>
        simp only [ht]
        refine (Verdict.ok s).congr (fun s' => by simp [Resolves, hf, ht]) fun e => ?_
        constructor
        · exact False.elim
        · intro he
          cases he with
          | function missing => exact absurd (hf.symm.trans missing) nofun
          | type found missing =>
            cases hf.symm.trans found
            exact missing s ht

end IndexSpaces

/-! ## Exports that a circuit can call -/

/-- All parameters and results have the type, and there is at most one result. -/
def Signature.Callable (s : Signature) (int : ValueType) : Prop :=
  s.results.length ≤ 1 ∧ ∀ type ∈ s.params ++ s.results, type = int

theorem Signature.supports_iff {s : Signature} {int : ValueType} :
    s.supports int = true ↔ s.Callable int := by
  simp only [supports, Callable, Bool.and_eq_true, decide_eq_true_iff, List.all_eq_true, beq_iff_eq]

instance (s : Signature) (int : ValueType) : Decidable (s.Callable int) :=
  decidable_of_iff _ Signature.supports_iff

namespace IndexSpaces

variable {m : IndexSpaces} {int : ValueType} {exports : List (String × UInt32)}
  {e : String × UInt32} {index : UInt32} {name : String} {arity : Arity} {s : Signature}
  {error : ModuleError}

/-- The export is of a function of this name and arity that a circuit can call. -/
def Offers (m : IndexSpaces) (int : ValueType) (e : String × UInt32) (name : String)
    (arity : Arity) : Prop :=
  e.1 = name ∧ ∃ s, m.Resolves e.2 s ∧ s.Callable int ∧ s.arity = arity

/-- The last of the exports that are of a callable function of this name has this arity. -/
def LastOffer (m : IndexSpaces) (int : ValueType) (exports : List (String × UInt32))
    (name : String) (arity : Arity) : Prop :=
  ∃ before e after, exports = before ++ e :: after ∧ m.Offers int e name arity ∧
    ∀ e' ∈ after, ∀ arity', ¬ m.Offers int e' name arity'

/-- The export is of a function that a circuit cannot call. -/
def Declined (m : IndexSpaces) (int : ValueType) (e : String × UInt32) : Prop :=
  ∃ s, m.Resolves e.2 s ∧ ¬ s.Callable int

theorem offers_iff (hs : m.Resolves e.2 s) :
    m.Offers int e name arity ↔ e.1 = name ∧ s.Callable int ∧ s.arity = arity := by
  refine and_congr_right fun _ => ⟨fun h => ?_, fun h => ⟨s, hs, h⟩⟩
  obtain ⟨s', hs', h⟩ := h
  rwa [hs.unique hs']

theorem declined_iff (hs : m.Resolves e.2 s) : m.Declined int e ↔ ¬ s.Callable int := by
  refine ⟨fun h => ?_, fun h => ⟨s, hs, h⟩⟩
  obtain ⟨s', hs', h⟩ := h
  rwa [hs.unique hs']

theorem resolves_iff : m.signature name index = .ok s ↔ m.Resolves index s :=
  (m.verdict_signature name index).ok_iff s

theorem not_resolves (h : m.signature e.1 e.2 = .error error) : ¬ m.Resolves e.2 s := by
  rw [← (m.verdict_signature e.1 e.2).ok_iff, h]
  nofun

instance (m : IndexSpaces) (int : ValueType) (e : String × UInt32) :
    Decidable (m.Declined int e) :=
  match h : m.signature e.1 e.2 with
  | .ok _ => decidable_of_iff _ (declined_iff (resolves_iff.1 h)).symm
  | .error _ => .isFalse fun hd => hd.elim fun _ hs => not_resolves h hs.1

theorem not_lastOffer_nil : ¬ m.LastOffer int [] name arity := by
  rintro ⟨before, e, after, he, -⟩
  simp at he

theorem lastOffer_cons :
    m.LastOffer int (e :: exports) name arity ↔
      m.LastOffer int exports name arity ∨
        (∀ e' ∈ exports, ∀ arity', ¬ m.Offers int e' name arity') ∧ m.Offers int e name arity := by
  constructor
  · intro h
    obtain ⟨before, e', after, he, ho, hlast⟩ := h
    cases before with
    | nil =>
      cases he
      exact .inr ⟨hlast, ho⟩
    | cons first before =>
      cases he
      exact .inl ⟨before, e', after, rfl, ho, hlast⟩
  · intro h
    rcases h with ⟨before, e', after, rfl, ho, hlast⟩ | ⟨hlast, ho⟩
    · exact ⟨e :: before, e', after, rfl, ho, hlast⟩
    · exact ⟨[], e, exports, rfl, ho, hlast⟩

theorem LastOffer.offered (h : m.LastOffer int exports name arity) :
    ∃ e ∈ exports, m.Offers int e name arity := by
  obtain ⟨before, e, after, rfl, ho, -⟩ := h
  exact ⟨e, List.mem_append_right before List.mem_cons_self, ho⟩

end IndexSpaces

/-! ## Collecting exports -/

namespace ExportTable

variable {m : IndexSpaces} {int : ValueType} {exports : List (String × UInt32)}
  {e : String × UInt32} {name : String} {arity : Arity} {table : ExportTable}

/-- The table with an export, unless it leads nowhere. -/
def addExport (m : IndexSpaces) (int : ValueType) (table : ExportTable) (e : String × UInt32) :
    ExportTable :=
  match m.signature e.1 e.2 with
  | .ok s => table.add int e.1 s
  | .error _ => table

/-- The table of these exports after those in `table`, or the error of the first that leads
nowhere. -/
def collect (m : IndexSpaces) (int : ValueType) (table : ExportTable) :
    List (String × UInt32) → Except ModuleError ExportTable
  | [] => .ok table
  | e :: rest => do
    let s ← m.signature e.1 e.2
    collect m int (table.add int e.1 s) rest

theorem extend_yields {σ : Type} (m : IndexSpaces) (int : ValueType) (table : ExportTable)
    (exports : List (String × UInt32)) (v : σ) :
    ∃ t, (extend m int table exports).Yields v ⟨collect m int table exports, v, t⟩ := by
  induction exports generalizing table with
  | nil => exact ⟨[], fun trail => by simp [extend, collect]⟩
  | cons e rest ih =>
    rw [extend, collect]
    cases m.signature e.1 e.2 with
    | error error => exact ⟨[], fun trail => by simp⟩
    | ok s =>
      obtain ⟨t, ht⟩ := ih (table.add int e.1 s)
      have hn := Yields.note (ε := ModuleError) (entry int e.1 s) v
      exact ⟨_, hn.bind (f := fun _ => extend m int (table.add int e.1 s) rest) ht⟩

theorem verdict_collect (m : IndexSpaces) (int : ValueType) (table : ExportTable)
    (exports : List (String × UInt32)) :
    Verdict (collect m int table exports)
      (fun t => Spotless m.Dangling exports ∧ exports.foldl (addExport m int) table = t)
      fun error => Stops m.Dangling m.DanglingError exports error ∨
        Spotless m.Dangling exports ∧ False := by
  induction exports generalizing table with
  | nil =>
    exact (Verdict.ok table).congr (fun t => by simp) fun error => by simp [Stops]
  | cons e rest ih =>
    have hv := m.verdict_signature e.1 e.2
    unfold collect
    cases hs : m.signature e.1 e.2 with
    | error error =>
      rw [hs] at hv
      exact .scan_stop (fun s hr => IndexSpaces.not_resolves hs hr)
        ((Verdict.error error).congr (fun _ => .rfl) fun error' =>
          (by simp : error = error' ↔ Except.error error = .error error').trans
            (hv.error_iff error'))
    | ok s =>
      refine .scan_step (fun hd => hd s (IndexSpaces.resolves_iff.1 hs)) ?_
      simp only [ok_bind, List.foldl_cons, addExport, hs]
      exact ih (table.add int e.1 s)

theorem find?_addExport :
    (table.addExport m int e).supported.find? name = some arity ↔
      m.Offers int e name arity ∨
        (∀ arity', ¬ m.Offers int e name arity') ∧ table.supported.find? name = some arity := by
  unfold addExport
  cases hs : m.signature e.1 e.2 with
  | error error =>
    have hn : ∀ arity', ¬ m.Offers int e name arity' := fun arity' ho =>
      ho.2.elim fun s hs' => IndexSpaces.not_resolves hs hs'.1
    simp [hn]
  | ok s =>
    simp only [IndexSpaces.offers_iff (IndexSpaces.resolves_iff.1 hs)]
    rw [add]
    by_cases hc : s.Callable int
    · rw [if_pos (Signature.supports_iff.2 hc), FunctionTable.find?_insert]
      by_cases hn : name = e.1
      · simp [hn, hc]
      · simp [hn, Ne.symm hn]
    · rw [if_neg fun h => hc (Signature.supports_iff.1 h)]
      simp [hc]

theorem unsupported_addExport :
    (table.addExport m int e).unsupported =
      table.unsupported ++ if m.Declined int e then [e.1] else [] := by
  unfold addExport
  cases hs : m.signature e.1 e.2 with
  | error error =>
    have hn : ¬ m.Declined int e := fun hd => hd.elim fun s hs' =>
      IndexSpaces.not_resolves hs hs'.1
    simp [hn]
  | ok s =>
    simp only [IndexSpaces.declined_iff (IndexSpaces.resolves_iff.1 hs)]
    rw [add]
    by_cases hc : s.Callable int
    · simp [Signature.supports_iff.2 hc, hc]
    · rw [if_neg fun h => hc (Signature.supports_iff.1 h), if_pos hc]

theorem ascending_addExport (h : table.supported.Ascending) :
    (table.addExport m int e).supported.Ascending := by
  unfold addExport add
  split
  · split
    · exact h.insert _ _
    · exact h
  · exact h

theorem find?_foldl_addExport :
    (exports.foldl (addExport m int) table).supported.find? name = some arity ↔
      m.LastOffer int exports name arity ∨
        (∀ e ∈ exports, ∀ arity', ¬ m.Offers int e name arity') ∧
          table.supported.find? name = some arity := by
  induction exports generalizing table with
  | nil => simp [IndexSpaces.not_lastOffer_nil]
  | cons e rest ih =>
    rw [List.foldl_cons, ih, find?_addExport, IndexSpaces.lastOffer_cons, List.forall_mem_cons,
      and_or_left, or_assoc, ← and_assoc, And.comm (a := ∀ e' ∈ rest, _) (b := ∀ arity', _)]

theorem unsupported_foldl_addExport :
    (exports.foldl (addExport m int) table).unsupported =
      table.unsupported ++ (exports.filter (m.Declined int ·)).map Prod.fst := by
  induction exports generalizing table with
  | nil => simp
  | cons e rest ih =>
    rw [List.foldl_cons, ih, unsupported_addExport, List.append_assoc, List.filter_cons]
    by_cases hd : m.Declined int e <;> simp [hd]

theorem ascending_foldl_addExport (h : table.supported.Ascending) :
    (exports.foldl (addExport m int) table).supported.Ascending := by
  induction exports generalizing table with
  | nil => exact h
  | cons e rest ih => exact ih (ascending_addExport h)

end ExportTable

/-- The table is that of the exports: its functions, in the order of their names, are those that
a circuit can call, with the arity of the last export of their name, and the names of the other
functions stand in the order of the exports. -/
structure IndexSpaces.Tabulates (m : IndexSpaces) (int : ValueType) (table : ExportTable) :
    Prop where
  ascending : table.supported.Pairwise (·.1 < ·.1)
  supported : ∀ name arity,
    (name, arity) ∈ table.supported ↔ m.LastOffer int m.exports name arity
  unsupported : table.unsupported = (m.exports.filter (m.Declined int ·)).map Prod.fst

theorem IndexSpaces.tabulates_foldl (m : IndexSpaces) (int : ValueType) :
    m.Tabulates int (m.exports.foldl (ExportTable.addExport m int) {}) := by
  have ha : (m.exports.foldl (ExportTable.addExport m int) {}).supported.Ascending :=
    ExportTable.ascending_foldl_addExport List.Pairwise.nil
  refine ⟨ha, fun name arity => ?_, ?_⟩
  · rw [FunctionTable.Ascending.mem_iff ha, ExportTable.find?_foldl_addExport]
    simp
  · rw [ExportTable.unsupported_foldl_addExport]
    exact List.nil_append _

theorem IndexSpaces.Tabulates.unique {m : IndexSpaces} {int : ValueType}
    {table table' : ExportTable} (h : m.Tabulates int table) (h' : m.Tabulates int table') :
    table = table' := by
  have hs : table.supported = table'.supported :=
    FunctionTable.Ascending.ext h.ascending h'.ascending fun entry =>
      (h.supported entry.1 entry.2).trans (h'.supported entry.1 entry.2).symm
  have hu : table.unsupported = table'.unsupported := h.unsupported.trans h'.unsupported.symm
  cases table
  cases table'
  cases hs
  cases hu
  rfl

theorem IndexSpaces.tabulates_iff {m : IndexSpaces} {int : ValueType} {table : ExportTable} :
    m.exports.foldl (ExportTable.addExport m int) {} = table ↔ m.Tabulates int table :=
  ⟨fun h => h ▸ m.tabulates_foldl int, fun h => (m.tabulates_foldl int).unique h⟩

/-! ## The table of a module -/

theorem ExportTable.verdict_checkInit (table : ExportTable) :
    Verdict table.checkInit (fun _ => table.supported.find? initFunction = some ⟨0, 0⟩)
      fun e => table.supported.find? initFunction = none ∧ .missingInit = e ∨
        ∃ arity, table.supported.find? initFunction = some arity ∧ arity ≠ ⟨0, 0⟩ ∧
          .invalidInit arity = e := by
  unfold checkInit
  cases table.supported.find? initFunction with
  | none => exact (Verdict.error _).congr (fun _ => by simp) fun e => by simp
  | some arity =>
    by_cases ha : arity = ⟨0, 0⟩
    · simp only [if_pos ha]
      exact (Verdict.ok ()).congr (fun _ => by simp [ha]) fun e => by simp [ha]
    · simp only [if_neg ha]
      exact (Verdict.error _).congr (fun _ => by simp [ha]) fun e => by simp [ha]

namespace IndexSpaces

variable {m : IndexSpaces} {int : ValueType} {table : ExportTable}

/-- The table is that of the module, whose exports lead to signatures and whose `init` has neither
parameters nor results. -/
structure Exposes (m : IndexSpaces) (int : ValueType) (table : ExportTable) : Prop where
  resolved : ∀ e ∈ m.exports, ∃ s, m.Resolves e.2 s
  init : m.LastOffer int m.exports initFunction ⟨0, 0⟩
  tabulates : m.Tabulates int table

/-- Why a module has no table. Each cause asks that none ahead of it applies. -/
inductive Fault (m : IndexSpaces) (int : ValueType) : ModuleError → Prop where
  | dangling {before : List (String × UInt32)} {e : String × UInt32} {error : ModuleError}
      (first : FirstOffender m.Dangling m.exports before e) (error_e : m.DanglingError e error) :
      Fault m int error
  | missingInit (resolved : ∀ e ∈ m.exports, ∃ s, m.Resolves e.2 s)
      (missing : ∀ arity, ¬ m.LastOffer int m.exports initFunction arity) :
      Fault m int .missingInit
  | invalidInit {arity : Arity} (resolved : ∀ e ∈ m.exports, ∃ s, m.Resolves e.2 s)
      (init : m.LastOffer int m.exports initFunction arity) (wrong : arity ≠ ⟨0, 0⟩) :
      Fault m int (.invalidInit arity)

/-- The table of a module with these index spaces. -/
def exportTable (m : IndexSpaces) (int : ValueType) : Except ModuleError ExportTable := do
  let table ← ExportTable.collect m int {} m.exports
  table.checkInit
  return table

theorem spotless_dangling_iff :
    Spotless m.Dangling m.exports ↔ ∀ e ∈ m.exports, ∃ s, m.Resolves e.2 s := by
  unfold Dangling
  rw [spotless_iff_forall]
  simp

theorem Tabulates.find?_iff (h : m.Tabulates int table) {name : String} {arity : Arity} :
    table.supported.find? name = some arity ↔ m.LastOffer int m.exports name arity := by
  rw [← h.supported, FunctionTable.Ascending.mem_iff h.ascending]

theorem verdict_exportTable (m : IndexSpaces) (int : ValueType) :
    Verdict (m.exportTable int) (m.Exposes int) (m.Fault int) := by
  refine ((ExportTable.verdict_collect m int {} m.exports).bind fun table _ =>
    table.verdict_checkInit.bind fun _ _ => .ok table).congr (fun table => ?_) fun e => ?_
  · simp only [spotless_dangling_iff, tabulates_iff]
    constructor
    · intro hx
      obtain ⟨_, ⟨hs, ht⟩, -, hi, rfl⟩ := hx
      exact ⟨hs, ht.find?_iff.1 hi, ht⟩
    · intro hx
      exact ⟨table, ⟨hx.resolved, hx.tabulates⟩, (), hx.tabulates.find?_iff.2 hx.init, rfl⟩
  · simp only [spotless_dangling_iff, tabulates_iff, and_false, or_false, exists_const]
    constructor
    · intro hx
      rcases hx with ⟨before, e', first, he⟩ | ⟨table, ⟨hs, ht⟩, ⟨hn, rfl⟩ | ⟨arity, hi, hne, rfl⟩⟩
      · exact .dangling first he
      · refine .missingInit hs fun arity ha => ?_
        exact absurd (hn.symm.trans (ht.find?_iff.2 ha)) nofun
      · exact .invalidInit hs (ht.find?_iff.1 hi) hne
    · intro hx
      have ht := m.tabulates_foldl int
      cases hx with
      | dangling first error_e => exact .inl ⟨_, _, first, error_e⟩
      | missingInit resolved missing =>
        refine .inr ⟨_, ⟨resolved, ht⟩, .inl ⟨?_, rfl⟩⟩
        rw [Option.eq_none_iff_forall_ne_some]
        exact fun arity ha => missing arity (ht.find?_iff.1 ha)
      | invalidInit resolved init wrong =>
        exact .inr ⟨_, ⟨resolved, ht⟩, .inr ⟨_, ht.find?_iff.2 init, wrong, rfl⟩⟩

end IndexSpaces

end CallCircuit.Wasm
