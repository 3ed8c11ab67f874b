import CallCircuit.Proofs.Checking
import Mathlib.Data.List.Nodup

/-!
# The order of exports

Modules that export the same functions under the same names, each name once, may export them in
different orders. A check tells such modules apart in nothing but the order of the names that it
lists as unsupported.

* `encoding_lt`: names ascend as their bytes in UTF-8 do;
* `lastOffer_iff`: of an export whose name is distinct from all others there is no later one;
* `Reordering.tabulates`: modules with reordered exports have the same functions;
* `Reordering.fault`: what is wrong with one of them is wrong with the other, perhaps at another
  export;
* `Handle.check_reordered`: so checks of handles on them agree.
-/

namespace CallCircuit.Wasm

/-! ## The order of names -/

theorem ofNat_cons_lt_iff {a b : Nat} {x y : List UInt8} (ha : a < 256) (hb : b < 256) :
    UInt8.ofNat a :: x < UInt8.ofNat b :: y ↔ a < b ∨ a = b ∧ x < y := by
  rw [List.cons_lt_cons_iff, UInt8.ofNat_lt_iff_lt ha hb, ← UInt8.toNat_inj,
    UInt8.toNat_ofNat_of_lt' ha, UInt8.toNat_ofNat_of_lt' hb]

/-- A smaller character has smaller bytes, whatever follows. -/
theorem utf8EncodeChar_append_lt {c d : Char} (h : c < d) (x y : List UInt8) :
    String.utf8EncodeChar c ++ x < String.utf8EncodeChar d ++ y := by
  have hlt : c.val.toNat < d.val.toNat := UInt32.lt_iff_toNat_lt.1 h
  have hd : d.val.toNat < 1114112 := by
    rcases d.valid with hv | hv
    · exact Nat.lt_trans hv (by decide)
    · exact hv.2
  simp only [String.utf8EncodeChar]
  generalize c.val.toNat = m at hlt ⊢
  generalize d.val.toNat = n at hlt hd ⊢
  -- digits to the base 64, each taken from the quotient ahead of it
  have h₁ (k : Nat) : k / 4096 = k / 64 / 64 := (Nat.div_div_eq_div_mul k 64 64).symm
  have h₂ (k : Nat) : k / 262144 = k / 64 / 64 / 64 := by rw [← h₁, Nat.div_div_eq_div_mul]
  rw [h₁, h₁, h₂, h₂]
  -- four lengths for either: a longer encoding starts with a larger byte
  repeat' split
  all_goals
    simp (disch := omega) only [List.cons_append, List.nil_append, ofNat_cons_lt_iff]
    omega

theorem flatMap_utf8EncodeChar_lt {l l' : List Char} (h : l < l') :
    l.flatMap String.utf8EncodeChar < l'.flatMap String.utf8EncodeChar := by
  induction h with
  | @nil c l =>
    obtain ⟨b, bytes, hb⟩ := List.exists_cons_of_ne_nil (String.utf8EncodeChar_ne_nil (c := c))
    rw [List.flatMap_cons, hb]
    exact List.nil_lt_cons _ _
  | rel hlt => exact utf8EncodeChar_append_lt hlt _ _
  | cons _ ih => exact List.append_left_lt ih

/-- The bytes of a name in UTF-8. -/
def encoding (name : String) : List UInt8 := name.toUTF8.data.toList

theorem encoding_eq (name : String) :
    encoding name = name.toList.flatMap String.utf8EncodeChar := by
  rw [encoding, String.toUTF8, ← String.utf8Encode_toList, List.utf8Encode, List.data_toByteArray]

theorem encoding_lt {n n' : String} (h : n < n') : encoding n < encoding n' := by
  rw [encoding_eq, encoding_eq]
  exact flatMap_utf8EncodeChar_lt h

/-! ## Kinds of error -/

/-- The kinds of error of a module, without what an error says of the module. An export that leads
nowhere makes the module invalid, whichever index is to blame. -/
inductive ErrorKind where
  | invalidIntSize
  | fileNotFound
  | unreadableFile
  | malformed
  | invalidModule
  | missingInit
  | invalidInit
  | unchecked
deriving DecidableEq, Repr

/-- The kind of an error. -/
def ModuleError.kind : ModuleError → ErrorKind
  | .invalidIntSize _ => .invalidIntSize
  | .fileNotFound _ => .fileNotFound
  | .unreadableFile _ => .unreadableFile
  | .malformed => .malformed
  | .unknownFunction .. | .unknownType .. => .invalidModule
  | .missingInit => .missingInit
  | .invalidInit _ => .invalidInit
  | .unchecked => .unchecked

/-! ## Modules with reordered exports -/

namespace IndexSpaces

variable {m m' : IndexSpaces} {int : ValueType} {exports : List (String × UInt32)}
  {e : String × UInt32} {index : UInt32} {name : String} {arity : Arity} {s : Signature}
  {table table' : ExportTable} {error error' : ModuleError}

/-- The modules differ at most in the order of their exports, no two of which have the same name. -/
structure Reordering (m m' : IndexSpaces) : Prop where
  types : m.types = m'.types
  functions : m.functions = m'.functions
  exports : m.exports.Perm m'.exports
  distinct : (m.exports.map Prod.fst).Nodup

/-- Of exports with distinct names each is the last of its name. -/
theorem lastOffer_iff (distinct : (exports.map Prod.fst).Nodup) :
    m.LastOffer int exports name arity ↔ ∃ e ∈ exports, m.Offers int e name arity := by
  refine ⟨LastOffer.offered, fun h => ?_⟩
  obtain ⟨e, he, ho⟩ := h
  obtain ⟨before, after, rfl⟩ := List.append_of_mem he
  refine ⟨before, e, after, rfl, ho, fun e' he' arity' ho' => ?_⟩
  rw [List.map_append, List.map_cons, List.nodup_append] at distinct
  have hfresh : e.1 ∉ after.map Prod.fst := (List.nodup_cons.1 distinct.2.1).1
  exact hfresh (ho.1.trans ho'.1.symm ▸ List.mem_map_of_mem he')

theorem Dangling.exists_error {before : List (String × UInt32)} (h : m.Dangling before e) :
    ∃ error, m.DanglingError e error := by
  have hv := m.verdict_signature e.1 e.2
  cases hs : m.signature e.1 e.2 with
  | ok s => exact absurd (resolves_iff.1 hs) (h s)
  | error error => exact ⟨error, (hv.error_iff error).1 hs⟩

theorem DanglingError.kind (h : m.DanglingError e error) : error.kind = .invalidModule := by
  cases h <;> rfl

namespace Reordering

theorem symm (h : m.Reordering m') : m'.Reordering m where
  types := h.types.symm
  functions := h.functions.symm
  exports := h.exports.symm
  distinct := (h.exports.map Prod.fst).nodup_iff.1 h.distinct

theorem resolves_iff (h : m.Reordering m') : m.Resolves index s ↔ m'.Resolves index s := by
  rw [Resolves, Resolves, h.types, h.functions]

theorem declined_iff (h : m.Reordering m') : m.Declined int e ↔ m'.Declined int e := by
  simp only [Declined, h.resolves_iff]

theorem lastOffer_iff (h : m.Reordering m') :
    m.LastOffer int m.exports name arity ↔ m'.LastOffer int m'.exports name arity := by
  rw [IndexSpaces.lastOffer_iff h.distinct, IndexSpaces.lastOffer_iff h.symm.distinct]
  simp only [Offers, h.resolves_iff, h.exports.mem_iff]

theorem resolved (h : m.Reordering m') (hm : ∀ e ∈ m.exports, ∃ s, m.Resolves e.2 s) :
    ∀ e ∈ m'.exports, ∃ s, m'.Resolves e.2 s := by
  intro e he
  obtain ⟨s, hs⟩ := hm e (h.exports.mem_iff.2 he)
  exact ⟨s, h.resolves_iff.1 hs⟩

/-- The tables of the modules have the same functions, and the same names next to them. -/
theorem tabulates (h : m.Reordering m') (ht : m.Tabulates int table)
    (ht' : m'.Tabulates int table') :
    table.supported = table'.supported ∧ table.unsupported.Perm table'.unsupported := by
  constructor
  · refine FunctionTable.Ascending.ext ht.ascending ht'.ascending fun entry => ?_
    rw [ht.supported entry.1 entry.2, ht'.supported entry.1 entry.2]
    exact h.lastOffer_iff
  · have hf : m.exports.filter (m.Declined int ·) = m.exports.filter (m'.Declined int ·) :=
      List.filter_congr fun e _ => decide_eq_decide.2 h.declined_iff
    rw [ht.unsupported, ht'.unsupported, hf]
    exact (h.exports.filter _).map Prod.fst

theorem exposes (h : m.Reordering m') (hx : m.Exposes int table) :
    ∃ table', m'.Exposes int table' :=
  ⟨_, h.resolved hx.resolved, h.lastOffer_iff.1 hx.init, m'.tabulates_foldl int⟩

/-- What is wrong with a module is wrong with the reordered one. Which export is the first to lead
nowhere, and so which error there is, depends on the order. -/
theorem fault (h : m.Reordering m') (hf : m.Fault int error) :
    ∃ error', m'.Fault int error' ∧ error.kind = error'.kind := by
  cases hf with
  | dangling first error_e =>
    rcases spotless_or_firstOffender m'.Dangling m'.exports with hs | ⟨before, e, first'⟩
    · have hs' := h.symm.resolved (spotless_dangling_iff.1 hs)
      exact absurd (spotless_dangling_iff.2 hs') first.not_spotless
    · obtain ⟨error', he'⟩ := Dangling.exists_error first'.2.1
      exact ⟨error', .dangling first' he', error_e.kind.trans he'.kind.symm⟩
  | missingInit resolved missing =>
    exact ⟨_, .missingInit (h.resolved resolved) fun arity ha =>
      missing arity (h.lastOffer_iff.2 ha), rfl⟩
  | invalidInit resolved init wrong =>
    exact ⟨_, .invalidInit (h.resolved resolved) (h.lastOffer_iff.1 init) wrong, rfl⟩

end Reordering

/-! ## Names in a table -/

theorem Tabulates.mem_supported_iff (ht : m.Tabulates int table)
    (distinct : (m.exports.map Prod.fst).Nodup) :
    name ∈ table.supported.map Prod.fst ↔
      ∃ e ∈ m.exports, e.1 = name ∧ ∃ s, m.Resolves e.2 s ∧ s.Callable int := by
  constructor
  · intro h
    obtain ⟨⟨_, arity⟩, hm, rfl⟩ := List.mem_map.1 h
    obtain ⟨e, he, hn, s, hs, callable, -⟩ := (lastOffer_iff distinct).1 ((ht.supported _ _).1 hm)
    exact ⟨e, he, hn, s, hs, callable⟩
  · rintro ⟨e, he, hn, s, hs, callable⟩
    have hl : m.LastOffer int m.exports name s.arity :=
      (lastOffer_iff distinct).2 ⟨e, he, hn, s, hs, callable, rfl⟩
    exact List.mem_map.2 ⟨(name, s.arity), (ht.supported name s.arity).2 hl, rfl⟩

theorem Tabulates.mem_unsupported_iff (ht : m.Tabulates int table) :
    name ∈ table.unsupported ↔
      ∃ e ∈ m.exports, e.1 = name ∧ ∃ s, m.Resolves e.2 s ∧ ¬ s.Callable int := by
  rw [ht.unsupported]
  constructor
  · intro h
    obtain ⟨e, hf, hn⟩ := List.mem_map.1 h
    obtain ⟨he, hd⟩ := List.mem_filter.1 hf
    exact ⟨e, he, hn, of_decide_eq_true (p := m.Declined int e) hd⟩
  · rintro ⟨e, he, hn, hd⟩
    have hd' : decide (m.Declined int e) = true := decide_eq_true hd
    exact List.mem_map.2 ⟨e, List.mem_filter.2 ⟨he, hd'⟩, hn⟩

/-- A table has each exported name once, among its functions or next to them. -/
theorem Exposes.names_perm (hx : m.Exposes int table)
    (distinct : (m.exports.map Prod.fst).Nodup) :
    (table.supported.map Prod.fst ++ table.unsupported).Perm (m.exports.map Prod.fst) := by
  have ht := hx.tabulates
  have hsupported : (table.supported.map Prod.fst).Nodup :=
    List.pairwise_map.2 (ht.ascending.imp fun hlt => String.ne_of_lt hlt)
  have hunsupported : table.unsupported.Nodup := by
    rw [ht.unsupported]
    exact distinct.sublist (List.filter_sublist.map Prod.fst)
  have hdisjoint : ∀ name ∈ table.supported.map Prod.fst, ∀ name' ∈ table.unsupported,
      name ≠ name' := by
    rintro name hs _ hu rfl
    obtain ⟨e, he, hn, s, hr, callable⟩ := (ht.mem_supported_iff distinct).1 hs
    obtain ⟨e', he', hn', s', hr', declined⟩ := ht.mem_unsupported_iff.1 hu
    obtain rfl : e = e' := List.inj_on_of_nodup_map distinct he he' (hn.trans hn'.symm)
    exact declined (hr.unique hr' ▸ callable)
  refine (List.perm_ext_iff_of_nodup
    (List.nodup_append.2 ⟨hsupported, hunsupported, hdisjoint⟩) distinct).2 fun name => ?_
  rw [List.mem_append, ht.mem_supported_iff distinct, ht.mem_unsupported_iff, List.mem_map]
  constructor
  · rintro (⟨e, he, hn, -⟩ | ⟨e, he, hn, -⟩) <;> exact ⟨e, he, hn⟩
  · rintro ⟨e, he, hn⟩
    obtain ⟨s, hs⟩ := hx.resolved e he
    by_cases hc : s.Callable int
    · exact .inl ⟨e, he, hn, s, hs, hc⟩
    · exact .inr ⟨e, he, hn, s, hs, hc⟩

end IndexSpaces

/-! ## Checks of modules with reordered exports -/

namespace Handle

open IndexSpaces

variable {h h' : Handle} {m m' : IndexSpaces}

theorem Reads.verdict_reading (hm : h.Reads m) :
    Verdict h.reading (m.Exposes h.intSize.valueType) (m.Fault h.intSize.valueType) := by
  obtain ⟨payloads, hp, accumulates⟩ := hm
  rw [reading, hp, accumulates_iff.1 accumulates]
  exact verdict_exportTable _ _

/-- The check of a handle that has not been checked, on a module that has a table. -/
theorem Reads.check_exposed (hm : h.Reads m) (hu : h.exports = none) {table : ExportTable}
    (hx : m.Exposes h.intSize.valueType table) :
    (check.apply h).result = .ok () ∧ (check.apply h).value.exports = some table := by
  obtain ⟨t, ht⟩ := check_yields hu
  rw [ht.apply, afterReading, (hm.verdict_reading.ok_iff table).2 hx]
  exact ⟨rfl, rfl⟩

/-- The check of a handle that has not been checked, on a module that has none. -/
theorem Reads.check_fault (hm : h.Reads m) (hu : h.exports = none) {e : ModuleError}
    (hf : m.Fault h.intSize.valueType e) : (check.apply h).result = .error e := by
  obtain ⟨t, ht⟩ := check_yields hu
  rw [ht.apply, afterReading, (hm.verdict_reading.error_iff e).2 hf]
  rfl

/-- When modules differ only in the order of their exports, whose names are distinct, checks of
handles on them succeed alike and fail with the same kind of error. After a success the functions
are the same, in the order of the bytes of their names, the unsupported names are the same up to
their order, and each exported name stands once among the functions and the unsupported names. -/
theorem check_reordered (hu : h.exports = none) (hu' : h'.exports = none)
    (hi : h.intSize = h'.intSize) (hm : h.Reads m) (hm' : h'.Reads m') (hr : m.Reordering m') :
    ((check.apply h).result = .ok () ↔ (check.apply h').result = .ok ()) ∧
    (∀ e e', (check.apply h).result = .error e → (check.apply h').result = .error e' →
      e.kind = e'.kind) ∧
    ((check.apply h).result = .ok () → ∃ functions unsupported unsupported',
      (check.apply h).value.functions = .ok functions ∧
      (check.apply h').value.functions = .ok functions ∧
      (check.apply h).value.unsupported = .ok unsupported ∧
      (check.apply h').value.unsupported = .ok unsupported' ∧
      functions.Pairwise (fun entry entry' => encoding entry.1 < encoding entry'.1) ∧
      unsupported.Perm unsupported' ∧
      (functions.map Prod.fst ++ unsupported).Nodup ∧
      ∀ name, name ∈ functions.map Prod.fst ++ unsupported ↔ name ∈ m.exports.map Prod.fst) := by
  cases hread : h.reading with
  | error e =>
    have hf := (hm.verdict_reading.error_iff e).1 hread
    obtain ⟨e', hf', hk⟩ := hr.fault hf
    rw [hm.check_fault hu hf, hm'.check_fault hu' (hi ▸ hf')]
    refine ⟨⟨nofun, nofun⟩, fun _ _ he he' => ?_, nofun⟩
    cases he
    cases he'
    exact hk
  | ok table =>
    have hx := (hm.verdict_reading.ok_iff table).1 hread
    obtain ⟨table', hx'⟩ := hr.exposes hx
    obtain ⟨hok, hv⟩ := hm.check_exposed hu hx
    obtain ⟨hok', hv'⟩ := hm'.check_exposed hu' (hi ▸ hx')
    obtain ⟨hs, hp⟩ := hr.tabulates hx.tabulates hx'.tabulates
    have hnames := hx.names_perm hr.distinct
    rw [hok, hok']
    refine ⟨⟨fun _ => rfl, fun _ => rfl⟩, nofun, fun _ =>
      ⟨table.supported, table.unsupported, table'.unsupported, ?_, ?_, ?_, ?_, ?_, hp, ?_, ?_⟩⟩
    · rw [functions, exportTable, hv]
      rfl
    · rw [functions, exportTable, hv', hs]
      rfl
    · rw [unsupported, exportTable, hv]
      rfl
    · rw [unsupported, exportTable, hv']
      rfl
    · exact hx.tabulates.ascending.imp encoding_lt
    · exact hnames.nodup_iff.2 hr.distinct
    · exact fun name => hnames.mem_iff

/-- The front of a module with three functions: one without parameters and results, one from an
integer to an integer, and one from a float to a float. -/
def threeFunctions : Bytes := [
  0x00, 0x61, 0x73, 0x6d, 0x01, 0x00, 0x00, 0x00,
  0x01, 0x0e, 0x03, 0x60, 0x00, 0x00, 0x60, 0x01, 0x7f, 0x01, 0x7f, 0x60, 0x01, 0x7d, 0x01, 0x7d,
  0x03, 0x04, 0x03, 0x00, 0x01, 0x02]

/-- The index spaces of a module on `threeFunctions`. -/
def threeFunctionSpaces (exports : List (String × UInt32)) : IndexSpaces where
  types := [some ⟨[], []⟩, some ⟨[.i32], [.i32]⟩, some ⟨[.f32], [.f32]⟩]
  functions := [0, 1, 2]
  exports

/-- A handle on the module that exports `init`, `f`, `g` and `h`, the last two on floats. -/
def forwardHandle : Handle where
  bytes := threeFunctions ++ [
    0x07, 0x14, 0x04, 0x04, 0x69, 0x6e, 0x69, 0x74, 0x00, 0x00, 0x01, 0x66, 0x00, 0x01,
    0x01, 0x67, 0x00, 0x02, 0x01, 0x68, 0x00, 0x02]
  uid := "forward"
  intSize := .bits32

/-- A handle on the module that exports the same in the opposite order. -/
def backwardHandle : Handle where
  bytes := threeFunctions ++ [
    0x07, 0x14, 0x04, 0x01, 0x68, 0x00, 0x02, 0x01, 0x67, 0x00, 0x02,
    0x01, 0x66, 0x00, 0x01, 0x04, 0x69, 0x6e, 0x69, 0x74, 0x00, 0x00]
  uid := "backward"
  intSize := .bits32

theorem forward_backward_checked_alike :
    (check.apply forwardHandle).result = .ok () ∧ (check.apply backwardHandle).result = .ok () := by
  have hm : forwardHandle.Reads
      (threeFunctionSpaces [("init", 0), ("f", 1), ("g", 2), ("h", 2)]) :=
    ⟨(Payload.ofFile? forwardHandle.bytes).getD [], by decide +kernel,
      accumulates_iff.2 (by decide +kernel)⟩
  have hm' : backwardHandle.Reads
      (threeFunctionSpaces [("h", 2), ("g", 2), ("f", 1), ("init", 0)]) :=
    ⟨(Payload.ofFile? backwardHandle.bytes).getD [], by decide +kernel,
      accumulates_iff.2 (by decide +kernel)⟩
  have hok : (check.apply forwardHandle).result = .ok () := by decide +kernel
  have hi : forwardHandle.intSize = backwardHandle.intSize := rfl
  exact ⟨hok, (check_reordered rfl rfl hi hm hm' ⟨rfl, rfl, by decide, by decide⟩).1.1 hok⟩

end Handle

end CallCircuit.Wasm
