import Mathlib.Data.List.Forall2
import CallCircuit.Document.Decode
import CallCircuit.Document.Encode

/-!
# Values that spell a description

The same description can be given by many values: objects list their members in any order and among
members of other names, a structure may be the array of its fields, and what is null, empty or zero
may be left out. `SpelledAs` says so for each part of a circuit, without reading it.

* `HasFields.fields?`, `HasFields.untag?`: the fields of a structure are read, however it gives them;
* `Bit.SpelledAs.ofJson?` and its like: so every spelling of a part is read as the part;
* `Operation.SpelledAs.ofLayers?`: operations where there is room for their layers;
* `Command.ofJson?_of_fields`, `Description.ofJson?_of_fields`: commands and circuits if their
  operations are.
-/

namespace CallCircuit

namespace Json

/-! ## Structures -/

/-- The members for those of these fields that are there. -/
def present (fields : List (String × Option Json)) : List (Text × Json) :=
  fields.flatMap fun field => field.2.toList.map (some field.1, ·)

/-- Members whose keys are these names. -/
def named (members : List (String × Json)) : List (Text × Json) :=
  members.map fun member => (some member.1, member.2)

/-- The ways to give a structure these fields, of which some may be left out: the members of an
object in any order and among members of other names, or the items of an array, with none for the
last fields if they are left out. -/
inductive HasFields (fields : List (String × Option Json)) : Json → Prop where
  | object {members : List (Text × Json)} {extras : List (String × Json)}
      (he : ∀ extra ∈ extras, extra.1 ∉ fields.map Prod.fst)
      (hm : members.Perm (present fields ++ named extras)) : HasFields fields (.object members)
  | array {items : List Json} {omitted : Nat}
      (h : fields.map Prod.snd = items.map some ++ List.replicate omitted none) :
      HasFields fields (.array items)

variable {fields : List (String × Option Json)} {j : Json}

theorem mem_present {member : Text × Json} :
    member ∈ present fields ↔ ∃ name, member.1 = some name ∧ (name, some member.2) ∈ fields := by
  simp only [present, List.mem_flatMap, List.mem_map, Option.mem_toList]
  constructor
  · rintro ⟨⟨name, value⟩, hf, value', ⟨⟩, rfl⟩
    exact ⟨name, rfl, hf⟩
  · rintro ⟨name, hk, hf⟩
    exact ⟨_, hf, _, rfl, Prod.ext hk.symm rfl⟩

theorem filter_present_of_notMem {name : String} (h : name ∉ fields.map Prod.fst) :
    (present fields).filter (·.1 == some name) = [] := by
  rw [List.filter_eq_nil_iff]
  intro member hm hk
  obtain ⟨name', hk', hf⟩ := mem_present.1 hm
  rw [beq_iff_eq, hk', Option.some.injEq] at hk
  exact h (hk ▸ List.mem_map_of_mem hf)

theorem filter_present (hn : (fields.map Prod.fst).Nodup) {field : String × Option Json}
    (hm : field ∈ fields) :
    (present fields).filter (·.1 == some field.1) = field.2.toList.map (some field.1, ·) := by
  induction fields with
  | nil => cases hm
  | cons first fields ih =>
    rw [List.map_cons, List.nodup_cons] at hn
    rw [present, List.flatMap_cons, List.filter_append]
    change _ ++ (present fields).filter _ = _
    rcases List.mem_cons.1 hm with rfl | hm
    · rw [filter_present_of_notMem hn.1, List.append_nil]
      cases field.2 <;> simp
    · rw [ih hn.2 hm]
      have hne : first.1 ≠ field.1 := fun h => hn.1 (h ▸ List.mem_map_of_mem hm)
      cases first.2 <;> simp [hne]

theorem filter_named {members : List (String × Json)} {name : String}
    (h : ∀ member ∈ members, member.1 ≠ name) :
    (named members).filter (·.1 == some name) = [] := by
  rw [named, List.filter_map, List.filter_eq_nil_iff.2 fun member hm => by simp [h member hm],
    List.map_nil]

/-- A member of this name, and no other. -/
theorem filter_members {members : List (Text × Json)} {extras : List (String × Json)}
    (he : ∀ extra ∈ extras, extra.1 ∉ fields.map Prod.fst)
    (hm : members.Perm (present fields ++ named extras))
    (hn : (fields.map Prod.fst).Nodup) {field : String × Option Json} (hf : field ∈ fields) :
    members.filter (·.1 == some field.1) = field.2.toList.map (some field.1, ·) := by
  -- the filter leaves at most one member, of which there is only one order
  have hp := hm.filter (·.1 == some field.1)
  rw [List.filter_append, filter_present hn hf,
    filter_named fun extra hx h => he extra hx (h ▸ List.mem_map_of_mem hf), List.append_nil] at hp
  cases hv : field.2 with
  | none => rw [hv] at hp; exact hp.eq_nil
  | some value => rw [hv] at hp; exact hp.eq_singleton

theorem mapM_map_eq_some {α β γ : Type} {f : α → Option β} {g : γ → α} {k : γ → β} {l : List γ}
    (h : ∀ x ∈ l, f (g x) = some (k x)) : (l.map g).mapM f = some (l.map k) := by
  induction l with
  | nil => rfl
  | cons x l ih =>
    rw [List.forall_mem_cons] at h
    rw [List.map_cons, List.mapM_cons, h.1, ih h.2]
    rfl

/-- The fields of a structure are read. -/
theorem HasFields.fields? (h : HasFields fields j) (hn : (fields.map Prod.fst).Nodup) :
    j.fields? (fields.map Prod.fst) = some (fields.map Prod.snd) := by
  cases h with
  | @object members extras he hm =>
    have ha : members.all (·.1.isSome) = true := by
      rw [List.all_eq_true]
      intro member hx
      rcases List.mem_append.1 (hm.mem_iff.1 hx) with hx | hx
      · obtain ⟨name, hk, -⟩ := mem_present.1 hx
        rw [hk]
        rfl
      · obtain ⟨extra, -, rfl⟩ := List.mem_map.1 hx
        rfl
    rw [Json.fields?, if_pos ha]
    refine mapM_map_eq_some fun field hf => ?_
    rw [member?, filter_members he hm hn hf]
    cases field.2 <;> rfl
  | @array items omitted h =>
    have hl := congrArg List.length h
    simp only [List.length_map, List.length_append, List.length_replicate] at hl
    rw [Json.fields?, List.length_map, hl, if_pos (Nat.le_add_right _ _), Nat.add_sub_cancel_left, h]

/-- The tag of a structure is told apart from its fields. -/
theorem HasFields.untag? {tag : Json} (h : HasFields (("type", some tag) :: fields) j)
    (hn : ("type" :: fields.map Prod.fst).Nodup) :
    ∃ body, j.untag? = some (tag, body) ∧ HasFields fields body := by
  have htype := (List.nodup_cons.1 hn).1
  cases h with
  | @object members extras he hm =>
    have ht : members.filter (·.1 == some "type") = [(some "type", tag)] :=
      filter_members he hm hn List.mem_cons_self
    have hrest : (present fields ++ named extras).filter (·.1 != some "type") =
        present fields ++ named extras := by
      rw [List.filter_eq_self, List.forall_mem_append]
      constructor
      · intro member hx
        obtain ⟨name, hk, hf⟩ := mem_present.1 hx
        have : name ≠ "type" := fun h => htype (h ▸ List.mem_map_of_mem hf)
        simpa [hk] using this
      · intro member hm
        obtain ⟨extra, hx, rfl⟩ := List.mem_map.1 hm
        have : extra.1 ≠ "type" := fun h => he extra hx (h ▸ List.mem_cons_self)
        simpa using this
    have hp : (members.filter (·.1 != some "type")).Perm
        (((some "type", tag) :: (present fields ++ named extras)).filter _) := hm.filter _
    rw [List.filter_cons_of_neg (by simp), hrest] at hp
    exact ⟨.object (members.filter (·.1 != some "type")), by rw [Json.untag?, ht],
      .object (fun extra hx hf => he extra hx (List.mem_cons_of_mem _ hf)) hp⟩
  | @array items omitted h =>
    rw [List.map_cons] at h
    cases items with
    | nil => cases omitted <;> cases h
    | cons item items =>
      rw [List.map_cons, List.cons_append, List.cons.injEq, Option.some.injEq] at h
      obtain ⟨rfl, h⟩ := h
      exact ⟨.array items, rfl, .array h⟩

/-! ## Values of fields -/

/-- The value of a text. -/
def IsText (s : String) (j : Json) : Prop := j = .text s

/-- The value of a word. -/
def IsWord (w : UInt64) (j : Json) : Prop := j = .nat w.toNat

variable {α : Type} {spelling : α → Json → Prop}

/-- The value of a list. -/
inductive Items (spelling : α → Json → Prop) : List α → Json → Prop where
  | array {xs : List α} {items : List Json} (h : List.Forall₂ spelling xs items) :
      Items spelling xs (.array items)

/-- The values of what may be null. -/
inductive Nullable (spelling : α → Json → Prop) : Option α → Json → Prop where
  | null : Nullable spelling none .null
  | value {x : α} {j : Json} (h : spelling x j) : Nullable spelling (some x) j

/-- The ways to give a field that may be left out. -/
inductive OrElse (default : α) (spelling : α → Json → Prop) : α → Option Json → Prop where
  | leftOut : OrElse default spelling default none
  | value {x : α} {j : Json} (h : spelling x j) : OrElse default spelling x (some j)

@[simp] theorem text?_text (s : String) : (text s).text? = some s := rfl

theorem natBelow?_nat {n limit : Nat} (h : n < limit) : (nat n).natBelow? limit = some n := by
  simp [nat, natBelow?, h]

@[simp] theorem word64?_nat (w : UInt64) : (nat w.toNat).word64? = some w := by
  simp [word64?, natBelow?_nat w.toNat_lt_size]

@[simp] theorem word32?_nat (w : UInt32) : (nat w.toNat).word32? = some w := by
  simp [word32?, natBelow?_nat w.toNat_lt_size]

variable {value? : Json → Option α}

theorem Items.list? {xs : List α} (h : Items spelling xs j)
    (hv : ∀ x j, spelling x j → value? j = some x) : j.list? value? = some xs := by
  obtain ⟨h⟩ := h
  rw [Json.list?]
  induction h with
  | nil => rfl
  | cons hx h ih =>
    rw [List.mapM_cons, hv _ _ hx, ih]
    rfl

theorem Nullable.nullable? {x? : Option α} (h : Nullable spelling x? j)
    (hnull : value? .null = none) (hv : ∀ x j, spelling x j → value? j = some x) :
    j.nullable? value? = some x? := by
  cases h with
  | null => rfl
  | @value x _ h =>
    have hx := hv x j h
    unfold Json.nullable?
    split
    · rw [hnull] at hx
      cases hx
    · rw [hx]
      rfl

theorem OrElse.orElse? {default x : α} {j? : Option Json} (h : OrElse default spelling x j?)
    (hv : ∀ x j, spelling x j → value? j = some x) : orElse? default value? j? = some x := by
  cases h with
  | leftOut => rfl
  | value h => exact hv _ _ h

@[simp] theorem list?_widths (ws : List UInt32) : (widths ws).list? word32? = some ws := by
  rw [widths, list?, mapM_map_eq_some (k := id) fun w _ => word32?_nat w, List.map_id]

theorem IsText.text? {s : String} {j : Json} (h : IsText s j) : j.text? = some s := h ▸ rfl

theorem IsWord.word64? {w : UInt64} {j : Json} (h : IsWord w j) : j.word64? = some w :=
  h ▸ word64?_nat w

/-- A text that may be null or left out. -/
theorem OrElse.optionalText? {s? : Option String} {j? : Option Json}
    (h : OrElse none (Nullable IsText) s? j?) :
    Json.orElse? none (Json.nullable? Json.text?) j? = some s? :=
  h.orElse? fun _ _ h => h.nullable? rfl fun _ _ => IsText.text?

end Json

/-! ## Bits, slots, operands and registers -/

/-- The fields of a bit. -/
def Bit.fields (b : Bit) : List (String × Option Json) :=
  [("reg_name", some (.text b.register)), ("index", some (.nat b.index.toNat))]

/-- The values that describe a bit. -/
def Bit.SpelledAs (b : Bit) (j : Json) : Prop := j.HasFields b.fields

/-- The fields of a slot. -/
def Slot.fields (s : Slot) : List (String × Option Json) := [("index", some (.nat s.index.toNat))]

/-- The values that describe a slot. -/
def Slot.SpelledAs (s : Slot) (j : Json) : Prop := j.HasFields s.fields

/-- The values that describe an operand. There is no other member next to its kind. -/
inductive Operand.SpelledAs : Operand → Json → Prop where
  | bit {b : Bit} {j : Json} (h : b.SpelledAs j) : SpelledAs (.bit b) (.object [(some "Bit", j)])
  | slot {s : Slot} {j : Json} (h : s.SpelledAs j) :
      SpelledAs (.slot s) (.object [(some "WasmState", j)])

/-- The fields of a register. -/
def Register.fields (r : Register) : List (String × Option Json) :=
  [("name", some (.text r.name)), ("size", some (.nat r.size.toNat))]

/-- The values that describe a register. -/
def Register.SpelledAs (r : Register) (j : Json) : Prop := j.HasFields r.fields

theorem Bit.SpelledAs.ofJson? {b : Bit} {j : Json} (h : b.SpelledAs j) :
    Bit.ofJson? j = some b := by
  have hf := h.fields? (by simp [fields])
  simp only [fields, List.map_cons, List.map_nil] at hf
  simp [Bit.ofJson?, hf]

theorem Slot.SpelledAs.ofJson? {s : Slot} {j : Json} (h : s.SpelledAs j) :
    Slot.ofJson? j = some s := by
  have hf := h.fields? (by simp [fields])
  simp only [fields, List.map_cons, List.map_nil] at hf
  simp [Slot.ofJson?, hf]

theorem Operand.SpelledAs.ofJson? {arg : Operand} {j : Json} (h : arg.SpelledAs j) :
    Operand.ofJson? j = some arg := by
  cases h with
  | bit h => simp [Operand.ofJson?, h.ofJson?]
  | slot h => simp [Operand.ofJson?, h.ofJson?]

theorem Register.SpelledAs.ofJson? {r : Register} {j : Json} (h : r.SpelledAs j) :
    Register.ofJson? j = some r := by
  have hf := h.fields? (by simp [fields])
  simp only [fields, List.map_cons, List.map_nil] at hf
  simp [Register.ofJson?, hf]

/-! ## Operations -/

/-- The fields of a call. -/
def ModuleCall.fields (c : ModuleCall) : List (String × Option Json) := [
  ("func_name", some (.text c.function)),
  ("wasm_file_uid", some (.text c.uid)),
  ("n_inputs", some (.nat c.inputCount.toNat)),
  ("n_outputs", some (.nat c.outputCount.toNat)),
  ("width_i_parameter", some (.widths c.inputWidths)),
  ("width_o_parameter", some (.widths c.outputWidths)),
  ("num_bits", some (.nat c.bitCount.toNat)),
  ("num_w", some (.nat c.slotCount.toNat))]

namespace Operation

/-- The fields of a condition on what `nested` describes. -/
def layerFields (nested : Json) (width value : UInt64) : List (String × Option Json) :=
  [("op", some nested), ("width", some (.nat width.toNat)), ("value", some (.nat value.toNat))]

/-- The values that describe an operation. In an array the kind comes first. -/
inductive SpelledAs : Operation → Json → Prop where
  | call {c : ModuleCall} {j : Json}
      (h : j.HasFields (("type", some (.text "WASM")) :: c.fields)) : SpelledAs (.call c) j
  | conditional {op : Operation} {width value : UInt64} {nested j : Json}
      (hop : op.SpelledAs nested)
      (h : j.HasFields (("type", some (.text "Conditional")) :: layerFields nested width value)) :
      SpelledAs (.conditional op width value) j

end Operation

theorem ModuleCall.ofJson?_of_fields {c : ModuleCall} {j : Json} (h : j.HasFields c.fields) :
    ModuleCall.ofJson? j = some c := by
  have hf := h.fields? (by simp [fields])
  simp only [fields, List.map_cons, List.map_nil] at hf
  simp [ModuleCall.ofJson?, hf]

/-- An operation is read where there is room for its layers. -/
theorem Operation.SpelledAs.ofLayers? {op : Operation} {j : Json} (h : op.SpelledAs j)
    (inner : Bool) (room : Nat) :
    Operation.ofLayers? inner room j = if op.layers < room then some op else none := by
  induction h generalizing inner room with
  | @call c j h =>
    cases room with
    | zero => rfl
    | succ room =>
      obtain ⟨body, hu, hb⟩ := h.untag? (by simp [ModuleCall.fields])
      rw [Operation.ofLayers?, hu]
      simp [Kind.ofTag?, Json.text, ModuleCall.ofJson?_of_fields hb, layers]
  | @conditional op width value nested j hop h ih =>
    cases room with
    | zero => rfl
    | succ room =>
      obtain ⟨body, hu, hb⟩ := h.untag? (by simp [layerFields])
      have hf := hb.fields? (by simp [layerFields])
      simp only [layerFields, List.map_cons, List.map_nil] at hf
      rw [Operation.ofLayers?, hu]
      simp [Kind.ofTag?, Json.text, hf, ih, layers]
      split <;> simp

/-! ## Commands and circuits -/

/-- The values that describe a command. -/
inductive Command.SpelledAs (command : Command) : Json → Prop where
  | fields {op args j : Json} {group : Option Json} (hop : command.op.SpelledAs op)
      (hargs : Json.Items Operand.SpelledAs command.args args)
      (hgroup : Json.OrElse none (Json.Nullable Json.IsText) command.group group)
      (h : j.HasFields [("op", some op), ("args", some args), ("opgroup", group)]) :
      SpelledAs command j

/-- The values that describe a circuit. -/
inductive Description.SpelledAs (d : Description) : Json → Prop where
  | fields {j : Json} {name registers bits slotCount commands : Option Json}
      (hname : Json.OrElse none (Json.Nullable Json.IsText) d.name name)
      (hregisters : Json.OrElse [] (Json.Items Register.SpelledAs) d.registers registers)
      (hbits : Json.OrElse none (Json.Nullable (Json.Items Bit.SpelledAs)) d.bits bits)
      (hslots : Json.OrElse 0 Json.IsWord d.slotCount slotCount)
      (hcommands : Json.OrElse [] (Json.Items Command.SpelledAs) d.commands commands)
      (h : j.HasFields [("name", name), ("registers", registers), ("bits", bits),
        ("wasm_states", slotCount), ("commands", commands)]) :
      SpelledAs d j

/-- A command is read if its operation is. -/
theorem Command.ofJson?_of_fields {command : Command} {op args j : Json} {group : Option Json}
    (hargs : Json.Items Operand.SpelledAs command.args args)
    (hgroup : Json.OrElse none (Json.Nullable Json.IsText) command.group group)
    (h : j.HasFields [("op", some op), ("args", some args), ("opgroup", group)]) (room : Nat) :
    Command.ofJson? room j = (Operation.ofJson? room op).map fun op => { command with op } := by
  have hf := h.fields? (by simp)
  simp only [List.map_cons, List.map_nil] at hf
  rw [Command.ofJson?, hf]
  simp only [hargs.list? fun _ _ => Operand.SpelledAs.ofJson?, hgroup.optionalText?]
  cases Operation.ofJson? room op <;> rfl

/-- A circuit is read if its commands are. -/
theorem Description.ofJson?_of_fields {d : Description} {j : Json}
    {name registers bits slotCount commands : Option Json}
    (hname : Json.OrElse none (Json.Nullable Json.IsText) d.name name)
    (hregisters : Json.OrElse [] (Json.Items Register.SpelledAs) d.registers registers)
    (hbits : Json.OrElse none (Json.Nullable (Json.Items Bit.SpelledAs)) d.bits bits)
    (hslots : Json.OrElse 0 Json.IsWord d.slotCount slotCount)
    (hcommands : Json.OrElse [] (Json.Items fun command j =>
      Command.ofJson? operationRoom j = some command) d.commands commands)
    (h : j.HasFields [("name", name), ("registers", registers), ("bits", bits),
      ("wasm_states", slotCount), ("commands", commands)]) :
    Description.ofJson? j = some d := by
  have hf := h.fields? (by simp)
  simp only [List.map_cons, List.map_nil] at hf
  have hr := hregisters.orElse? fun _ _ h => h.list? fun _ _ => Register.SpelledAs.ofJson?
  have hb := hbits.orElse? fun _ _ h => h.nullable? rfl fun _ _ h => h.list? fun _ _ =>
    Bit.SpelledAs.ofJson?
  have hs := hslots.orElse? fun _ _ => Json.IsWord.word64?
  have hc := hcommands.orElse? fun _ _ h => h.list? fun _ _ h => h
  rw [Description.ofJson?, hf]
  simp only [hname.optionalText?, hr, hb, hs, hc]
  rfl

end CallCircuit
