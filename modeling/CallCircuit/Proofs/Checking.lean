import CallCircuit.Proofs.Exports

/-!
# Checking a handle

A check reads the module of a handle and changes the handle at its very end.

* `verdict_reading`: what reading the module finds;
* `checks`: what a check does to a handle, and `check_error`: a failed one does nothing;
* `check_exactly`: a check comes to the outcome that applies and to no other.
-/

namespace CallCircuit.Wasm.Handle

variable {h : Handle}

/-- The index spaces are those of the module of the handle. -/
def Reads (h : Handle) (m : IndexSpaces) : Prop :=
  ∃ payloads, Payload.ofFile? h.bytes = some payloads ∧ m.Accumulates payloads

/-- The table that a check of the handle finds. -/
def reading (h : Handle) : Except ModuleError ExportTable :=
  match Payload.ofFile? h.bytes with
  | none => .error .malformed
  | some payloads => (IndexSpaces.ofPayloads payloads).exportTable h.intSize.valueType

/-- The handle with what reading its module finds. -/
def afterReading (h : Handle) : Handle :=
  match h.reading with
  | .ok table => { h with exports := some table }
  | .error _ => h

theorem verdict_reading (h : Handle) :
    Verdict h.reading (fun table => ∃ m, h.Reads m ∧ m.Exposes h.intSize.valueType table)
      fun e => Payload.ofFile? h.bytes = none ∧ .malformed = e ∨
        ∃ m, h.Reads m ∧ m.Fault h.intSize.valueType e := by
  unfold reading Reads
  cases Payload.ofFile? h.bytes with
  | none => exact (Verdict.error _).congr (fun table => by simp) fun e => by simp
  | some payloads =>
    exact (IndexSpaces.verdict_exportTable _ _).congr
      (fun table => by simp [IndexSpaces.accumulates_iff])
      fun e => by simp [IndexSpaces.accumulates_iff]

/-- A handle that has been checked is left alone. -/
theorem checked_yields (hc : h.checked = true) : check.Yields h ⟨.ok (), h, []⟩ := by
  intro trail
  simp [check, hc]

theorem check_yields (hu : h.exports = none) :
    ∃ t, check.Yields h ⟨h.reading.map fun _ => (), h.afterReading, t⟩ := by
  unfold afterReading reading
  cases hp : Payload.ofFile? h.bytes with
  | none => exact ⟨[], fun trail => by simp [check, checked, hu, hp, Except.map]⟩
  | some payloads =>
    generalize hm : IndexSpaces.ofPayloads payloads = m
    obtain ⟨t, ht⟩ := ExportTable.extend_yields m h.intSize.valueType {} m.exports h
    simp only [IndexSpaces.exportTable]
    cases hc : ExportTable.collect m h.intSize.valueType {} m.exports with
    | error error =>
      rw [hc] at ht
      refine ⟨t, fun trail => ?_⟩
      simp [check, checked, hu, hp, hm, ExportTable.ofSpaces, ht trail, hc, Except.map]
    | ok table =>
      rw [hc] at ht
      cases hi : table.checkInit with
      | error error =>
        refine ⟨t, fun trail => ?_⟩
        simp [check, checked, hu, hp, hm, ExportTable.ofSpaces, ht trail, hc, hi, Except.map]
      | ok u =>
        refine ⟨t ++ [.checkedModule h.uid table.supported.length table.unsupported.length],
          fun trail => ?_⟩
        simp [check, checked, hu, hp, hm, ExportTable.ofSpaces, ht trail, hc, hi, Except.map]

/-- All that a check does to a handle, in terms of what reading its module finds. -/
inductive Checks (h : Handle) : Except ModuleError Unit → Handle → Prop where
  | again (checked : h.checked = true) : Checks h (.ok ()) h
  | failed {e : ModuleError} (unchecked : h.exports = none) (found : h.reading = .error e) :
      Checks h (.error e) h
  | read {table : ExportTable} (unchecked : h.exports = none) (found : h.reading = .ok table) :
      Checks h (.ok ()) { h with exports := some table }

theorem checks (h : Handle) : h.Checks (check.apply h).result (check.apply h).value := by
  cases hx : h.exports with
  | some table =>
    have hc : h.checked = true := by rw [checked, hx]; rfl
    rw [(checked_yields hc).apply]
    exact .again hc
  | none =>
    obtain ⟨t, ht⟩ := check_yields hx
    rw [ht.apply]
    unfold afterReading
    cases hr : h.reading with
    | error e => exact .failed hx hr
    | ok table => exact .read hx hr

/-- A check that fails is one of a handle without a table, and leaves the handle as it was. -/
theorem check_error {e : ModuleError} (he : (check.apply h).result = .error e) :
    h.exports = none ∧ (check.apply h).value = h := by
  have hk := h.checks
  rw [he] at hk
  generalize (check.apply h).value = h' at hk ⊢
  cases hk with
  | failed unchecked found => exact ⟨unchecked, rfl⟩

/-- What comes of checking a handle, and the handle afterwards. The constructors exclude each
other. -/
inductive CheckOutcome (h : Handle) : Except ModuleError Unit → Handle → Prop where
  | malformed (unread : Payload.ofFile? h.bytes = none) : CheckOutcome h (.error .malformed) h
  | fault {m : IndexSpaces} {e : ModuleError} (reads : h.Reads m)
      (fault_e : m.Fault h.intSize.valueType e) : CheckOutcome h (.error e) h
  | checked {m : IndexSpaces} {functions : FunctionTable} {unsupported : List String}
      (reads : h.Reads m)
      (exposes : m.Exposes h.intSize.valueType { supported := functions, unsupported }) :
      CheckOutcome h (.ok ()) { h with exports := some { supported := functions, unsupported } }

/-- Checking a handle on any bytes comes to the outcome that applies, and to no other. -/
theorem check_exactly (bytes : Bytes) (uid : String) (intSize : IntSize)
    (result : Except ModuleError Unit) (h' : Handle) :
    (check.apply { bytes, uid, intSize }).result = result ∧
        (check.apply { bytes, uid, intSize }).value = h' ↔
      CheckOutcome { bytes, uid, intSize } result h' := by
  generalize hh : ({ bytes, uid, intSize } : Handle) = h
  obtain ⟨t, ht⟩ := check_yields (h := h) (hh ▸ rfl)
  have hv := h.verdict_reading
  rw [ht.apply]
  unfold afterReading
  constructor
  · intro hx
    obtain ⟨rfl, rfl⟩ := hx
    cases hr : h.reading with
    | ok table =>
      obtain ⟨m, reads, exposes⟩ := (hv.ok_iff table).1 hr
      exact .checked reads exposes
    | error e =>
      rcases (hv.error_iff e).1 hr with ⟨unread, rfl⟩ | ⟨m, reads, fault⟩
      · exact .malformed unread
      · exact .fault reads fault
  · intro ho
    cases ho with
    | malformed unread =>
      rw [(hv.error_iff _).2 (.inl ⟨unread, rfl⟩)]
      exact ⟨rfl, rfl⟩
    | fault reads fault_e =>
      rw [(hv.error_iff _).2 (.inr ⟨_, reads, fault_e⟩)]
      exact ⟨rfl, rfl⟩
    | checked reads exposes =>
      rw [(hv.ok_iff _).2 ⟨_, reads, exposes⟩]
      exact ⟨rfl, rfl⟩

end CallCircuit.Wasm.Handle
