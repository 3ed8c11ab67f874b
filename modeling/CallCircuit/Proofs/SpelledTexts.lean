import CallCircuit.Proofs.Documents
import CallCircuit.Proofs.OperationTexts

/-!
# Texts that spell a description

A text spells a description when it spells the tokens of a value that does. How deep the value nests
decides whether it is read: an operation has to fit the room that the document leaves to it, together
with whatever else stands in it, while elsewhere nesting does not matter.

* `Json.fits_of_isPlain`: plain values fit as soon as they do not nest too deep;
* `Description.SpelledAs.ofJson?`: so they are read as the description that they spell;
* `Description.spellings_agree`: all texts of a description have the same outcome;
* `Circuit.spelledBy_toText`: the text that is written of a circuit is one of them.
-/

namespace CallCircuit

/-! ## Depth -/

namespace Json

mutual

/-- How many arrays and objects stand in one another. -/
def depth : Json → Nat
  | .null | .bool _ | .number _ | .string _ => 0
  | .array items => itemsDepth items + 1
  | .object members => membersDepth members + 1

/-- The greatest `depth` of these. -/
def itemsDepth : List Json → Nat
  | [] => 0
  | item :: items => max item.depth (itemsDepth items)

/-- The greatest `depth` of the values of these. -/
def membersDepth : List (Text × Json) → Nat
  | [] => 0
  | (_, value) :: members => max value.depth (membersDepth members)

end

theorem Number.isFinite_of_isPlain {n : Number} (h : n.isPlain = true) : n.isFinite = true := by
  rw [isPlain, Bool.and_eq_true, beq_iff_eq, decide_eq_true_iff] at h
  exact isFinite_of_digits (h.1 ▸ rfl) (h.1 ▸ rfl) h.2

mutual

theorem fits_of_isPlain (j : Json) (h : j.isPlain = true) {room : Nat} (hd : j.depth ≤ room) :
    j.fits room = true := by
  match j, room with
  | .null, _ | .bool _, _ => rfl
  | .number n, _ => exact n.isFinite_of_isPlain h
  | .string s, _ => exact h
  | .array items, room + 1 => exact fitsItems_of_arePlain items h (Nat.le_of_succ_le_succ hd)
  | .object members, room + 1 =>
    exact fitsMembers_of_arePlainMembers members h (Nat.le_of_succ_le_succ hd)

theorem fitsItems_of_arePlain (items : List Json) (h : arePlain items = true) {room : Nat}
    (hd : itemsDepth items ≤ room) : fitsItems room items = true := by
  match items with
  | [] => rfl
  | item :: items =>
    rw [arePlain, Bool.and_eq_true] at h
    rw [itemsDepth, Nat.max_le] at hd
    rw [fitsItems, fits_of_isPlain item h.1 hd.1, fitsItems_of_arePlain items h.2 hd.2]
    rfl

theorem fitsMembers_of_arePlainMembers (members : List (Text × Json))
    (h : arePlainMembers members = true) {room : Nat} (hd : membersDepth members ≤ room) :
    fitsMembers room members = true := by
  match members with
  | [] => rfl
  | (key, value) :: members =>
    rw [arePlainMembers, Bool.and_eq_true, Bool.and_eq_true] at h
    rw [membersDepth, Nat.max_le] at hd
    rw [fitsMembers, h.1.1, fits_of_isPlain value h.1.2 hd.1,
      fitsMembers_of_arePlainMembers members h.2 hd.2]
    rfl

end

/-! ## Spellings with room -/

variable {α : Type} {spelling spelling' : α → Json → Prop} {xs : List α}

theorem Items.imp_of_fits {j : Json} {room : Nat} (h : Items spelling xs j)
    (hf : j.fits (room + 1) = true)
    (hi : ∀ x item, item.fits room = true → spelling x item → spelling' x item) :
    Items spelling' xs j := by
  obtain ⟨h⟩ := h
  rw [fits] at hf
  refine .array ?_
  induction h with
  | nil => exact .nil
  | cons hx h ih =>
    rw [fitsItems, Bool.and_eq_true] at hf
    exact .cons (hi _ _ hf.1 hx) (ih hf.2)

theorem OrElse.imp {default x : α} {j? : Option Json} (h : OrElse default spelling x j?)
    (hi : ∀ j ∈ j?, spelling x j → spelling' x j) : OrElse default spelling' x j? := by
  cases h with
  | leftOut => exact .leftOut
  | value h => exact .value (hi _ rfl h)

theorem OrElse.eq_of_orElse? {default x y : α} {value? : Json → Option α} {j? : Option Json}
    (h : OrElse default spelling x j?) (hv : ∀ j, spelling x j → value? j = some y → y = x)
    (hr : Json.orElse? default value? j? = some y) : y = x := by
  cases h with
  | leftOut => exact (Option.some.inj hr).symm
  | value h => exact hv _ h hr

/-- What is read of spellings that are read right, if at all. -/
theorem Items.eq_of_list? {value? : Json → Option α} {ys : List α} {j : Json}
    (h : Items spelling xs j) (hv : ∀ x y j, spelling x j → value? j = some y → y = x)
    (hr : j.list? value? = some ys) : ys = xs := by
  obtain ⟨h⟩ := h
  rw [Json.list?] at hr
  induction h generalizing ys with
  | nil =>
    cases hr
    rfl
  | @cons x item xs items hx h ih =>
    rw [List.mapM_cons] at hr
    simp only [bind, Option.bind_eq_some_iff] at hr
    obtain ⟨y, hy, ys, hys, ⟨⟩⟩ := hr
    rw [hv _ _ _ hx hy, ih hys]

end Json

/-- A spelled operation is read if it fits. -/
theorem Operation.SpelledAs.ofJson?_eq {op : Operation} {j : Json} (h : op.SpelledAs j)
    (room : Nat) : Operation.ofJson? room j = if j.fits room then some op else none := by
  rw [Operation.ofJson?]
  split
  · rename_i hf
    -- what is read with all the room that its layers need tells how much room there is
    have hl : Operation.ofLayers? false (op.layers + 1) j = some op := by
      rw [h.ofLayers?, if_pos (Nat.lt_succ_self _)]
    have := layers_of_ofLayers? hf hl
    rw [h.ofLayers?, if_pos (by omega)]
  · rfl

namespace Command.SpelledAs

variable {command : Command} {j : Json}

theorem ofJson? (h : command.SpelledAs j) {room : Nat} (hf : j.fits (room + 1) = true) :
    Command.ofJson? room j = some command := by
  obtain ⟨hop, hargs, hgroup, h⟩ := h
  obtain ⟨inner, hr, hv⟩ := Json.fits_field hf (h.fields? (by simp))
  cases hr
  rw [Command.ofJson?_of_fields hargs hgroup h, hop.ofJson?_eq, if_pos (hv _ (by simp))]
  rfl

theorem eq_of_ofJson? (h : command.SpelledAs j) {room : Nat} {read : Command}
    (hr : Command.ofJson? room j = some read) : read = command := by
  obtain ⟨hop, hargs, hgroup, h⟩ := h
  rw [Command.ofJson?_of_fields hargs hgroup h, hop.ofJson?_eq] at hr
  split at hr <;> cases hr
  rfl

end Command.SpelledAs

namespace Description.SpelledAs

variable {d : Description} {j : Json}

/-- A value that spells a description is read as the description if it fits a document. -/
theorem ofJson? (h : d.SpelledAs j) (hf : j.fits maxDepth = true) :
    Description.ofJson? j = some d := by
  obtain ⟨hname, hregisters, hbits, hslots, hcommands, h⟩ := h
  obtain ⟨inner, hr, hv⟩ := Json.fits_field hf (h.fields? (by simp))
  cases hr
  refine Description.ofJson?_of_fields hname hregisters hbits hslots ?_ h
  refine hcommands.imp fun commands hm hc => ?_
  obtain rfl := hm
  exact hc.imp_of_fits (hv commands (by simp)) fun _ _ hf h => h.ofJson? hf

/-- The commands that are read of a spelling, if it is read, are those of the description. -/
theorem commands_of_ofJson? (h : d.SpelledAs j) {read : Description}
    (hr : Description.ofJson? j = some read) : read.commands = d.commands := by
  obtain ⟨-, -, -, -, hcommands, h⟩ := h
  have hf := h.fields? (by simp)
  simp only [List.map_cons, List.map_nil] at hf
  rw [Description.ofJson?, hf] at hr
  simp only [bind, Option.bind_eq_some_iff] at hr
  obtain ⟨_, -, _, -, _, -, _, -, commands, hc, ⟨⟩⟩ := hr
  exact hcommands.eq_of_orElse? (fun _ h hr => h.eq_of_list? (fun _ _ _ h hr =>
    h.eq_of_ofJson? hr) hr) hc

end Description.SpelledAs

/-! ## Texts -/

/-- The texts that spell a description: those of the values that do. Besides what describes the
circuit such a value has plain members only. It nests no deeper than a document can, unless the
operations of the description do so themselves. -/
def Description.SpelledBy (d : Description) (s : String) : Prop :=
  ∃ j : Json, d.SpelledAs j ∧ j.isPlain = true ∧ (Nests d.commands → j.depth ≤ maxDepth) ∧
    Json.Token.Written j.tokens s.toList

namespace Description.SpelledBy

variable {d : Description} {s : String}

theorem ofText_eq_reading (h : d.SpelledBy s) (hn : Nests d.commands) :
    Circuit.ofText s = d.reading := by
  obtain ⟨j, hj, hplain, hdepth, hw⟩ := h
  exact Circuit.ofText_eq_reading (Json.read?_of_written hw)
    (hj.ofJson? (j.fits_of_isPlain hplain (hdepth hn)))

theorem ofText_unreadable (h : d.SpelledBy s) (hn : ¬ Nests d.commands) :
    Circuit.ofText s = (.error (.refused .unreadable), []) := by
  obtain ⟨j, hj, -, -, hw⟩ := h
  -- whatever could be read has these commands, and would have had room for them
  have hnone : Description.ofJson? j = none := by
    by_contra hsome
    obtain ⟨read, hr⟩ := Option.ne_none_iff_exists'.1 hsome
    exact hn (hj.commands_of_ofJson? hr ▸ Description.nests_of_ofJson? hr)
  rw [Circuit.ofText, Json.read?_of_written hw]
  simp only [hnone]

end Description.SpelledBy

/-- All texts that spell a description have the same outcome: that of building the circuit from the
description, or a failure to read where its operations have no room in a document. -/
theorem Description.spellings_agree {d : Description} {s : String} (h : d.SpelledBy s) :
    (∀ t, d.SpelledBy t → Circuit.ofText t = Circuit.ofText s) ∧
    (Nests d.commands → Circuit.ofText s = d.reading) ∧
    (¬ Nests d.commands → Circuit.ofText s = (.error (.refused .unreadable), [])) := by
  refine ⟨fun t ht => ?_, h.ofText_eq_reading, h.ofText_unreadable⟩
  by_cases hn : Nests d.commands
  · rw [ht.ofText_eq_reading hn, h.ofText_eq_reading hn]
  · rw [ht.ofText_unreadable hn, h.ofText_unreadable hn]

/-! ## The text that is written -/

namespace Json

theorem itemsDepth_le {items : List Json} {n : Nat} :
    itemsDepth items ≤ n ↔ ∀ item ∈ items, item.depth ≤ n := by
  induction items with
  | nil => simp [itemsDepth]
  | cons item items ih => rw [itemsDepth, Nat.max_le, ih, List.forall_mem_cons]

theorem membersDepth_le {members : List (Text × Json)} {n : Nat} :
    membersDepth members ≤ n ↔ ∀ member ∈ members, member.2.depth ≤ n := by
  induction members with
  | nil => simp [membersDepth]
  | cons member members ih => rw [membersDepth, Nat.max_le, ih, List.forall_mem_cons]

@[simp] theorem depth_text (s : String) : (text s).depth = 0 := rfl

@[simp] theorem depth_nat (n : Nat) : (nat n).depth = 0 := rfl

theorem depth_array_le {items : List Json} {n : Nat} :
    (array items).depth ≤ n + 1 ↔ ∀ item ∈ items, item.depth ≤ n := by
  rw [depth, Nat.add_le_add_iff_right, itemsDepth_le]

theorem depth_ofFields_le {fields : List (String × Json)} {n : Nat} :
    (ofFields fields).depth ≤ n + 1 ↔ ∀ field ∈ fields, field.2.depth ≤ n := by
  rw [ofFields, depth, Nat.add_le_add_iff_right, membersDepth_le, List.forall_mem_map]

theorem depth_widths_le (ws : List UInt32) : (widths ws).depth ≤ 1 := by
  rw [widths, depth_array_le, List.forall_mem_map]
  exact fun _ _ => Nat.le_refl 0

theorem depth_optionalText (name : String) (s? : Option String) :
    ∀ field ∈ optionalText name s?, field.2.depth = 0 := by
  cases s? <;> simp [optionalText]

end Json

theorem Operation.depth_toJson_le (op : Operation) : op.toJson.depth ≤ op.layers + 2 := by
  induction op with
  | call c =>
    rw [toJson, Json.depth_ofFields_le]
    simp [layers, Json.depth_widths_le]
  | conditional op width value ih =>
    rw [toJson, Json.depth_ofFields_le]
    simp [layers, ih]

theorem Operand.depth_toJson (arg : Operand) : arg.toJson.depth = 2 := by
  cases arg <;> rfl

theorem Command.depth_toJson_le (command : Command) {n : Nat} (h : command.op.layers + 2 ≤ n)
    (hn : 3 ≤ n) : command.toJson.depth ≤ n + 1 := by
  have hargs : (Json.array (command.args.map Operand.toJson)).depth ≤ 2 + 1 := by
    rw [Json.depth_array_le, List.forall_mem_map]
    exact fun arg _ => Nat.le_of_eq arg.depth_toJson
  rw [toJson, Json.depth_ofFields_le, List.forall_mem_append, List.forall_mem_cons,
    List.forall_mem_singleton]
  exact ⟨⟨Nat.le_trans command.op.depth_toJson_le h, Nat.le_trans hargs hn⟩, fun field hm =>
    Json.depth_optionalText _ _ field hm ▸ Nat.zero_le n⟩

theorem Circuit.depth_toJson_le {c : Circuit} (hn : Nests c.commands) :
    c.toJson.depth ≤ maxDepth := by
  have hregisters : (Json.array (c.registers.map Register.toJson)).depth ≤ 125 + 1 := by
    rw [Json.depth_array_le, List.forall_mem_map]
    exact fun _ _ => (by decide : 1 ≤ 125)
  have hbits : (Json.array (c.bits.map Bit.toJson)).depth ≤ 125 + 1 := by
    rw [Json.depth_array_le, List.forall_mem_map]
    exact fun _ _ => (by decide : 1 ≤ 125)
  have hcommands : (Json.array (c.commands.map Command.toJson)).depth ≤ 125 + 1 := by
    rw [Json.depth_array_le, List.forall_mem_map]
    exact fun command hm => command.depth_toJson_le (hn command hm) (by decide)
  show c.toJson.depth ≤ 126 + 1
  rw [toJson, Json.depth_ofFields_le, List.forall_mem_append]
  refine ⟨fun field hm => Json.depth_optionalText _ _ field hm ▸ Nat.zero_le _, ?_⟩
  simp only [List.forall_mem_cons]
  exact ⟨hregisters, hbits, Nat.zero_le _, hcommands, fun _ hm => absurd hm List.not_mem_nil⟩

/-- The text that is written of a circuit spells its description. -/
theorem Circuit.spelledBy_toText (c : Circuit) : c.description.SpelledBy c.toText :=
  ⟨c.toJson, c.spelledAs_toJson, c.isPlain_toJson, fun hn => depth_toJson_le hn,
    Json.written_write .indented c.isPlain_toJson⟩

/-! ## Another text of a circuit -/

/-- The call of `guardedCommand` as an array. -/
def arrayCall : Json := .array [
  .text "WASM", .text "add_one", .text uncheckedHandle.uid, .nat 1, .nat 1, .array [.nat 1],
  .array [.nat 1], .nat 2, .nat 1]

/-- The operation of `guardedCommand` with its tag last and a member that it does not know. -/
def shuffledOperation : Json := .ofFields [
  ("func_name", .array [.null]),
  ("value", .nat 1),
  ("width", .nat 1),
  ("op", arrayCall),
  ("type", .text "Conditional")]

/-- `guardedCommand` with its members from last to first. -/
def shuffledCommand : Json := .ofFields [
  ("opgroup", .null),
  ("args", .array [
    .ofFields [("Bit", .array [.text "c", .nat 0])],
    .ofFields [("Bit", .ofFields [("index", .nat 1), ("reg_name", .text "c")])],
    .ofFields [("Bit", .array [.text "c", .nat 2])],
    .ofFields [("WasmState", .array [.nat 0])]]),
  ("op", shuffledOperation)]

/-- `guardedCircuit` without a name, and with arrays for its registers and bits. -/
def shuffledDocument : Json := .ofFields [
  ("comment", .text "\u00e9\n"),
  ("commands", .array [shuffledCommand]),
  ("wasm_states", .nat 1),
  ("bits", .array [.array [.text "c", .nat 0], .array [.text "c", .nat 1],
    .array [.text "c", .nat 2]]),
  ("registers", .array [.array [.text "c", .nat 3]])]

/-- The members of an object can stand from last to first. -/
theorem Json.HasFields.ofReverse {fields : List (String × Option Json)}
    {members : List (Text × Json)} (extras : List (String × Json))
    (he : ∀ extra ∈ extras, extra.1 ∉ fields.map Prod.fst)
    (h : present fields ++ named extras = members.reverse) : HasFields fields (.object members) :=
  .object he (h ▸ (List.reverse_perm members).symm)

theorem shuffledOperation_spelling : guardedCommand.op.SpelledAs shuffledOperation := by
  let call : Operation := .call (.ofWidths "add_one" uncheckedHandle.uid [1] [1] 1)
  have hcall : call.SpelledAs arrayCall := .call (@Json.HasFields.array _ _ 0 rfl)
  exact .conditional hcall
    (.ofReverse [("func_name", .array [.null])] (by simp [Operation.layerFields]) rfl)

theorem Bit.spelledAs_array (b : Bit) :
    b.SpelledAs (.array [.text b.register, .nat b.index.toNat]) :=
  @Json.HasFields.array _ _ 0 rfl

theorem shuffledCommand_spelling : guardedCommand.SpelledAs shuffledCommand := by
  have hobject : (Bit.mk "c" 1).SpelledAs (.ofFields [("index", .nat 1), ("reg_name", .text "c")]) :=
    .ofReverse [] nofun rfl
  have hslot : (Slot.mk 0).SpelledAs (.array [.nat 0]) := @Json.HasFields.array _ _ 0 rfl
  exact .fields shuffledOperation_spelling
    (.array (.cons (.bit (Bit.spelledAs_array _)) (.cons (.bit hobject)
      (.cons (.bit (Bit.spelledAs_array _)) (.cons (.slot hslot) .nil)))))
    (.value .null) (.ofReverse [] nofun rfl)

theorem guardedCircuit_eq : guardedCircuit = {
    name := none, registers := [⟨"c", 3⟩], bits := [⟨"c", 0⟩, ⟨"c", 1⟩, ⟨"c", 2⟩]
    slotCount := 1, commands := [guardedCommand] } := by
  decide +kernel

theorem shuffledDocument_spelling : guardedCircuit.description.SpelledAs shuffledDocument := by
  have hregister : (Register.mk "c" 3).SpelledAs (.array [.text "c", .nat 3]) :=
    @Json.HasFields.array _ _ 0 rfl
  rw [guardedCircuit_eq]
  exact .fields .leftOut (.value (.array (.cons hregister .nil)))
    (.value (.value (.array (.cons (Bit.spelledAs_array _) (.cons (Bit.spelledAs_array _)
      (.cons (Bit.spelledAs_array _) .nil))))))
    (.value rfl) (.value (.array (.cons shuffledCommand_spelling .nil)))
    (.ofReverse [("comment", .text "\u00e9\n")] (by simp) rfl)

theorem spelledBy_shuffledDocument :
    guardedCircuit.description.SpelledBy (shuffledDocument.write .compact) := by
  have hplain : shuffledDocument.isPlain = true := by decide +kernel
  exact ⟨shuffledDocument, shuffledDocument_spelling, hplain, fun _ => by decide +kernel,
    Json.written_write .compact hplain⟩

/-- A command too deep for a document. -/
def deepCircuit : Circuit := { commands := [⟨absurdOperation 123, [], none⟩] }

theorem not_nests_deepCircuit : ¬ Nests deepCircuit.commands := fun h => by
  have := h _ (List.mem_singleton_self _)
  rw [layers_absurdOperation] at this
  exact absurd this (by decide)

/-- Both texts of `guardedCircuit` are read as the circuit, and no text of `deepCircuit` is read. -/
theorem shuffledDocument_agrees :
    (guardedCircuit.description.SpelledBy guardedCircuit.toText ∧
      guardedCircuit.description.SpelledBy (shuffledDocument.write .compact) ∧
      (Circuit.ofText (shuffledDocument.write .compact)).1 = .ok guardedCircuit) ∧
    deepCircuit.description.SpelledBy deepCircuit.toText ∧ ¬ Nests deepCircuit.commands ∧
      Circuit.ofText deepCircuit.toText = (.error (.refused .unreadable), []) := by
  refine ⟨⟨guardedCircuit.spelledBy_toText, spelledBy_shuffledDocument, ?_⟩,
    deepCircuit.spelledBy_toText, not_nests_deepCircuit,
    (Description.spellings_agree deepCircuit.spelledBy_toText).2.2 not_nests_deepCircuit⟩
  rw [(Description.spellings_agree guardedCircuit.spelledBy_toText).1 _ spelledBy_shuffledDocument]
  exact reachable_guardedCircuit.sound.reads_back reachable_guardedCircuit.nests

end CallCircuit
