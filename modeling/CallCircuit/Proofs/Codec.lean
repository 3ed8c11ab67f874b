import CallCircuit.Document.Text
import CallCircuit.Proofs.Lexemes
import CallCircuit.Proofs.Spellings

/-!
# Reading what has been written

What is written of a part of a circuit is one of the values that spell it, `spelledAs_toJson`, so it
is read back. An operation also has to have room for its layers, `Operation.ofJson?_toJson`, and so
has all that contains it.

* `Number.isFinite_natural`: words are finite numbers;
* `Command.ofJson?_toJson`: a command reads back exactly if its operation has room;
* `Description.ofJson?_toJson`: a circuit reads back as its description;
* `Circuit.isPlain_toJson`: and all of this also goes through the text.
-/

namespace CallCircuit

/-! ## Words -/

namespace Json.Number

theorem le_ofDigitChars (cs : List Char) (n : Nat) : n ≤ Nat.ofDigitChars 10 cs n := by
  induction cs generalizing n with
  | nil => exact Nat.le_of_eq Nat.ofDigitChars_nil.symm
  | cons c cs ih =>
    rw [Nat.ofDigitChars_cons]
    exact Nat.le_trans (by omega) (ih _)

theorem gather_eq {cs : List Char} {n : Nat} (h : Nat.ofDigitChars 10 cs n < UInt64.size) :
    gather n cs = (Nat.ofDigitChars 10 cs n, 0) := by
  induction cs generalizing n with
  | nil => rw [gather, Nat.ofDigitChars_nil]
  | cons c cs ih =>
    have hc : Nat.ofDigitChars 10 cs (Nat.ofDigitChars 10 [c] n) =
        Nat.ofDigitChars 10 (c :: cs) n := by
      rw [← Nat.ofDigitChars_append, List.singleton_append]
    -- further digits only add to what has been gathered, so that it is below the limit as well
    have hn := Nat.lt_of_le_of_lt (le_ofDigitChars cs (Nat.ofDigitChars 10 [c] n)) (hc ▸ h)
    rw [gather, if_pos hn, ih (hc ▸ h), hc]

theorem round53_le (n : Nat) : round53 n ≤ 3 * n + 1 := by
  have hu : Nat.pow 2 (n.log2 + 1 - 53) ≤ 2 * n + 1 := by
    by_cases hn : n = 0
    · subst hn
      decide
    · have hl : Nat.pow 2 n.log2 ≤ n := Nat.log2_self_le hn
      calc Nat.pow 2 (n.log2 + 1 - 53) ≤ Nat.pow 2 (n.log2 + 1) :=
            Nat.pow_le_pow_right (by decide) (by omega)
        _ = Nat.pow 2 n.log2 * 2 := rfl
        _ ≤ 2 * n + 1 := by omega
  have hd := Nat.div_mul_le_self n (Nat.pow 2 (n.log2 + 1 - 53))
  simp only [round53]
  split
  · omega
  · rw [Nat.add_mul]
    omega

/-- An integer whose digits are those of a word is a finite number. -/
theorem isFinite_of_digits {n : Number} (hf : n.fraction = []) (he : n.exponent = none)
    (h : digits n.whole < UInt64.size) : n.isFinite = true := by
  have hg : gather 0 n.whole = (digits n.whole, 0) := gather_eq h
  have hr := round53_le (digits n.whole)
  have h1 : round53 1 = 1 := by decide
  have hi : 4 * UInt64.size ≤ infinite := by decide +kernel
  have hlt : round53 (digits n.whole) < infinite := by omega
  simp [isFinite, hf, he, hg, gather, h1, maxPower, hlt]

/-- A word is a finite number. -/
theorem isFinite_natural {n : Nat} (h : n < UInt64.size) : (natural n).isFinite = true :=
  isFinite_of_digits rfl rfl (by rwa [natural, digits, Nat.ofDigitChars_ten_toDigits])

end Json.Number

/-! ## Spellings that are written -/

namespace Json

/-- The object with those of these fields that are there. -/
def ofPresent (fields : List (String × Option Json)) : Json := .object (present fields)

theorem hasFields_ofPresent (fields : List (String × Option Json)) :
    (ofPresent fields).HasFields fields :=
  @HasFields.object _ _ [] nofun (by rw [named, List.map_nil, List.append_nil])

theorem items_map {α : Type} {spelling : α → Json → Prop} {toJson : α → Json} {xs : List α}
    (h : ∀ x ∈ xs, spelling x (toJson x)) : Items spelling xs (.array (xs.map toJson)) :=
  .array (List.forall₂_map_right_iff.2 (List.forall₂_same.2 h))

theorem orElse_text (s? : Option String) : OrElse none (Nullable IsText) s? (s?.map text) := by
  cases s? with
  | none => exact .leftOut
  | some s => exact .value (.value rfl)

end Json

theorem Bit.spelledAs_toJson (b : Bit) : b.SpelledAs b.toJson := Json.hasFields_ofPresent b.fields

theorem Slot.spelledAs_toJson (s : Slot) : s.SpelledAs s.toJson := Json.hasFields_ofPresent s.fields

theorem Operand.spelledAs_toJson (arg : Operand) : arg.SpelledAs arg.toJson := by
  cases arg with
  | bit b => exact .bit b.spelledAs_toJson
  | slot s => exact .slot s.spelledAs_toJson

theorem Register.spelledAs_toJson (r : Register) : r.SpelledAs r.toJson :=
  Json.hasFields_ofPresent r.fields

theorem Operation.spelledAs_toJson (op : Operation) : op.SpelledAs op.toJson := by
  induction op with
  | call c => exact .call (Json.hasFields_ofPresent (("type", some (.text "WASM")) :: c.fields))
  | conditional op width value ih =>
    exact .conditional ih (Json.hasFields_ofPresent
      (("type", some (.text "Conditional")) :: layerFields op.toJson width value))

/-- The fields of a command that is written. -/
def Command.fields (command : Command) : List (String × Option Json) := [
  ("op", some command.op.toJson),
  ("args", some (.array (command.args.map Operand.toJson))),
  ("opgroup", command.group.map Json.text)]

theorem Command.hasFields_toJson (command : Command) : command.toJson.HasFields command.fields := by
  have h := Json.hasFields_ofPresent command.fields
  obtain ⟨op, args, _ | group⟩ := command <;> exact h

theorem Command.spelledAs_toJson (command : Command) : command.SpelledAs command.toJson :=
  .fields command.op.spelledAs_toJson (Json.items_map fun _ _ => Operand.spelledAs_toJson _)
    (Json.orElse_text _) command.hasFields_toJson

/-- The fields of a circuit that is written. -/
def Circuit.fields (c : Circuit) : List (String × Option Json) := [
  ("name", c.name.map Json.text),
  ("registers", some (.array (c.registers.map Register.toJson))),
  ("bits", some (.array (c.bits.map Bit.toJson))),
  ("wasm_states", some (.nat c.slotCount.toNat)),
  ("commands", some (.array (c.commands.map Command.toJson)))]

theorem Circuit.hasFields_toJson (c : Circuit) : c.toJson.HasFields c.fields := by
  have h := Json.hasFields_ofPresent c.fields
  obtain ⟨_ | name, registers, bits, slotCount, commands⟩ := c <;> exact h

/-- What is written of a circuit is one of the values that describe it. -/
theorem Circuit.spelledAs_toJson (c : Circuit) : c.description.SpelledAs c.toJson :=
  .fields (Json.orElse_text _) (.value (Json.items_map fun _ _ => Register.spelledAs_toJson _))
    (.value (.value (Json.items_map fun _ _ => Bit.spelledAs_toJson _))) (.value rfl)
    (.value (Json.items_map fun _ _ => Command.spelledAs_toJson _)) c.hasFields_toJson

/-! ## Room -/

namespace Json

theorem fitsItems_eq (room : Nat) (items : List Json) :
    fitsItems room items = items.all (·.fits room) := by
  induction items with
  | nil => rfl
  | cons item items ih => rw [fitsItems, ih, List.all_cons]

theorem fitsMembers_eq (room : Nat) (members : List (Text × Json)) :
    fitsMembers room members = members.all fun (key, value) => key.isSome && value.fits room := by
  induction members with
  | nil => rfl
  | cons member members ih => rw [fitsMembers, ih, List.all_cons]

@[simp] theorem fits_ofFields_zero (fields : List (String × Json)) :
    (ofFields fields).fits 0 = false := rfl

@[simp] theorem fits_ofFields_succ (room : Nat) (fields : List (String × Json)) :
    (ofFields fields).fits (room + 1) = fields.all (·.2.fits room) := by
  rw [ofFields, fits, fitsMembers_eq, List.all_map]
  simp [Function.comp_def]

@[simp] theorem fits_text (room : Nat) (s : String) : (text s).fits room = true := by
  simp [text, fits]

@[simp] theorem fits_word64 (room : Nat) (w : UInt64) : (nat w.toNat).fits room = true := by
  rw [nat, fits]
  exact Number.isFinite_natural w.toNat_lt_size

@[simp] theorem fits_word32 (room : Nat) (w : UInt32) : (nat w.toNat).fits room = true := by
  rw [nat, fits]
  exact Number.isFinite_natural (Nat.lt_trans w.toNat_lt_size (by decide))

@[simp] theorem fits_widths_zero (ws : List UInt32) : (widths ws).fits 0 = false := by
  simp [widths, fits]

@[simp] theorem fits_widths_succ (room : Nat) (ws : List UInt32) :
    (widths ws).fits (room + 1) = true := by
  simp [widths, fits, fitsItems_eq]

end Json

namespace Operation

/-- The object of an operation, the list of widths in it, and an object for each layer need room. -/
theorem fits_toJson (op : Operation) (room : Nat) :
    op.toJson.fits room = decide (op.layers + 2 ≤ room) := by
  induction op generalizing room with
  | call call =>
    match room with
    | 0 | 1 | room + 2 => simp [toJson, layers]
  | conditional op width value ih =>
    cases room with
    | zero => simp [toJson]
    | succ room => simp [toJson, ih, layers]

/-- An operation reads back exactly if there is room for its layers, for itself and for the lists
of widths in it. -/
theorem ofJson?_toJson (op : Operation) (room : Nat) :
    Operation.ofJson? room op.toJson = if op.layers + 2 ≤ room then some op else none := by
  rw [ofJson?, fits_toJson, op.spelledAs_toJson.ofLayers?]
  by_cases h : op.layers + 2 ≤ room
  · rw [if_pos (decide_eq_true h), if_pos (by omega), if_pos h]
  · rw [if_neg (by simpa using h), if_neg h]

end Operation

/-! ## Commands and circuits -/

/-- A command reads back exactly if its operation does. -/
theorem Command.ofJson?_toJson (command : Command) (room : Nat) :
    Command.ofJson? room command.toJson =
      if command.op.layers + 2 ≤ room then some command else none := by
  rw [Command.ofJson?_of_fields (Json.items_map fun _ _ => Operand.spelledAs_toJson _) (Json.orElse_text _)
    command.hasFields_toJson, Operation.ofJson?_toJson]
  split <;> rfl

/-- A circuit reads back as its description where there is room for the operations in it. -/
theorem Description.ofJson?_toJson {c : Circuit}
    (h : ∀ command ∈ c.commands, command.op.layers + 2 ≤ operationRoom) :
    Description.ofJson? c.toJson = some c.description := by
  have hc : Json.Items (fun command j => Command.ofJson? operationRoom j = some command) c.commands
      (.array (c.commands.map Command.toJson)) :=
    Json.items_map fun command hm => by rw [Command.ofJson?_toJson, if_pos (h command hm)]
  exact Description.ofJson?_of_fields (Json.orElse_text _)
    (.value (Json.items_map fun _ _ => Register.spelledAs_toJson _))
    (.value (.value (Json.items_map fun _ _ => Bit.spelledAs_toJson _))) (.value rfl) (.value hc) c.hasFields_toJson

/-! ## Plainness -/

namespace Json

theorem Number.isPlain_natural {n : Nat} (h : n < UInt64.size) : (natural n).isPlain = true := by
  have hd : digits (natural n).whole = n := Nat.ofDigitChars_ten_toDigits
  rw [isPlain, hd, decide_eq_true h, Bool.and_true, beq_iff_eq]
  rfl

@[simp] theorem isPlain_text (s : String) : (text s).isPlain = true := rfl

@[simp] theorem isPlain_word64 (w : UInt64) : (nat w.toNat).isPlain = true :=
  Number.isPlain_natural w.toNat_lt_size

@[simp] theorem isPlain_word32 (w : UInt32) : (nat w.toNat).isPlain = true :=
  Number.isPlain_natural (Nat.lt_trans w.toNat_lt_size (by decide))

@[simp] theorem isPlain_array (items : List Json) :
    (array items).isPlain = items.all isPlain := by
  rw [isPlain]
  induction items with
  | nil => rfl
  | cons item items ih => rw [arePlain, ih, List.all_cons]

@[simp] theorem isPlain_ofFields (fields : List (String × Json)) :
    (ofFields fields).isPlain = fields.all (·.2.isPlain) := by
  rw [ofFields, isPlain]
  induction fields with
  | nil => rfl
  | cons field fields ih => simp [arePlainMembers, ih]

@[simp] theorem isPlain_widths (ws : List UInt32) : (widths ws).isPlain = true := by
  simp [widths]

@[simp] theorem isPlain_optionalText (name : String) (s? : Option String) :
    (optionalText name s?).all (·.2.isPlain) = true := by
  cases s? <;> simp [optionalText]

end Json

@[simp] theorem Bit.isPlain_toJson (b : Bit) : b.toJson.isPlain = true := by simp [toJson]

@[simp] theorem Slot.isPlain_toJson (s : Slot) : s.toJson.isPlain = true := by simp [toJson]

@[simp] theorem Operand.isPlain_toJson (arg : Operand) : arg.toJson.isPlain = true := by
  cases arg <;> simp [toJson]

@[simp] theorem Register.isPlain_toJson (r : Register) : r.toJson.isPlain = true := by
  simp [toJson]

@[simp] theorem Operation.isPlain_toJson (op : Operation) : op.toJson.isPlain = true := by
  induction op with
  | call c => simp [toJson]
  | conditional op width value ih => simp [toJson, ih]

@[simp] theorem Command.isPlain_toJson (command : Command) : command.toJson.isPlain = true := by
  simp only [toJson, Json.isPlain_ofFields, List.all_append, Json.isPlain_optionalText]
  simp

theorem Circuit.isPlain_toJson (c : Circuit) : c.toJson.isPlain = true := by
  simp only [toJson, Json.isPlain_ofFields, List.all_append, Json.isPlain_optionalText]
  simp

end CallCircuit
