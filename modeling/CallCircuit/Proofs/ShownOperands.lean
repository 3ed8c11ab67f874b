import CallCircuit.Proofs.Guards
import CallCircuit.Proofs.OperandTexts
import CallCircuit.Proofs.Trails

/-!
# What lines tell of operands

An error or an entry that names an operand has its text in it. Most errors name one operand and say
no more, so that they tell which one it is. A command names several, and as names are written as
they are, one may run over what stands between them.

* `NamingLine.shows`: an error or entry that names an operand has its text at one place;
* `Circuit.RefusesWith.names`, `Circuit.Names.eq_of_message`: in which ways a circuit names an
  operand that it refuses, and that these are told apart;
* `shown_operands_identified`: what a line tells of the operands of a circuit;
* `look_alikes_ambiguous`: what it does not tell.
-/

namespace CallCircuit

open Edit
open Wasm (Handle)

/-! ## Lines that name an operand -/

/-- The line has the text of the operand at a fixed place. -/
def Shows (line : Operand → String) : Prop := ∃ front back, ∀ u, line u = front ++ u.text ++ back

theorem shows_text : Shows Operand.text :=
  ⟨"", "", fun u => by rw [String.empty_append, String.append_empty]⟩

/-- A line around a line that shows the operand. -/
theorem Shows.within {line outer : Operand → String} (h : Shows line) (front back : String)
    (e : ∀ u, outer u = front ++ line u ++ back) : Shows outer := by
  obtain ⟨inner, inner', h⟩ := h
  exact ⟨front ++ inner, inner' ++ back, fun u => by simp only [e, h, String.append_assoc]⟩

theorem Shows.eq_iff {line : Operand → String} (h : Shows line) {u v : Operand} :
    line u = line v ↔ u.text = v.text := by
  obtain ⟨front, back, h⟩ := h
  rw [h, h, String.append_left_inj, String.append_right_inj]

/-- Among operands with separators between them, one is shown at a fixed place. -/
theorem shows_intercalate (separator : String) (before after : List Operand) :
    Shows fun u => separator.intercalate ((before ++ u :: after).map Operand.text) := by
  have hafter : Shows fun u => separator.intercalate ((u :: after).map Operand.text) := by
    cases after with
    | nil => exact shows_text.within "" "" fun u => by simp
    | cons v after =>
      exact shows_text.within ""
        (separator ++ separator.intercalate ((v :: after).map Operand.text))
        fun u => by simp [String.append_assoc]
  cases before with
  | nil => exact hafter
  | cons v before =>
    refine hafter.within (separator.intercalate ((v :: before).map Operand.text) ++ separator) ""
      fun u => ?_
    rw [List.map_append, String.intercalate_append_of_ne_nil (by simp) (by simp),
      String.append_empty]

/-- The lines that name an operand, as they depend on which one it is: the errors for an operand
that is repeated or out of place, the same as the reason why a text is rejected, and the entry for a
command with the operand at some place among others. -/
inductive NamingLine : (Operand → String) → Prop where
  | repeated : NamingLine fun u => (CircuitError.duplicateArgument u).message
  | misplaced (op : Operation) :
      NamingLine fun u => (CircuitError.inconsistent (.misplaced u op)).message
  | rejected {error : Operand → CircuitError} (h : NamingLine fun u => (error u).message) :
      NamingLine fun u => (CircuitError.rejected (error u)).message
  | command (op : Operation) (before after : List Operand) (group : Option String) :
      NamingLine fun u => (Entry.addingCommand ⟨op, before ++ u :: after, group⟩).line

theorem NamingLine.shows {line : Operand → String} (h : NamingLine line) : Shows line := by
  induction h with
  | repeated =>
    exact shows_text.within "unit " " appears more than once in the operation arguments"
      fun _ => rfl
  | misplaced op =>
    have h : Shows fun u => (Inconsistency.misplaced u op).message :=
      shows_text.within "argument " (" of " ++ op.text ++ " is out of place") fun u => by
        show "argument " ++ u.text ++ " of " ++ op.text ++ " is out of place" = _
        simp only [String.append_assoc]
    exact h.within "invalid circuit: " "" fun u => (String.append_empty).symm
  | rejected _ ih =>
    exact ih.within "circuit serialization failed: " "" fun u => (String.append_empty).symm
  | command op before after group =>
    have h : Shows fun u => (Command.mk op (before ++ u :: after) group).text :=
      (shows_intercalate ", " before after).within (op.text ++ " ") ";" fun _ => rfl
    exact h.within "DEBUG adding command " "" fun u =>
      (line_addingCommand _).trans String.append_empty.symm

/-- Two commands of one operation that leave one line have the same texts of operands. -/
theorem texts_eq_of_line {op : Operation} {args args' : List Operand} {group group' : Option String}
    (h : (Entry.addingCommand ⟨op, args, group⟩).line =
      (Entry.addingCommand ⟨op, args', group'⟩).line) :
    ", ".intercalate (args.map Operand.text) = ", ".intercalate (args'.map Operand.text) := by
  have htext (args : List Operand) (group : Option String) :
      (Entry.addingCommand ⟨op, args, group⟩).line = "DEBUG adding command " ++
        (op.text ++ " " ++ ", ".intercalate (args.map Operand.text) ++ ";") :=
    line_addingCommand _
  rwa [htext, htext, String.append_right_inj, String.append_left_inj, String.append_right_inj] at h

/-! ## Errors that name an operand -/

/-- The operand that an error names. -/
def CircuitError.operand? : CircuitError → Option Operand
  | .unknownBit b => some (.bit b)
  | .duplicateArgument u => some u
  | .unknownSlot s => some (.slot s)
  | .inconsistent (.misplaced u _) => some u
  | .rejected e => e.operand?
  | _ => none

/-- The error says that an operand is out of place. -/
def CircuitError.OutOfPlace : CircuitError → Prop
  | .inconsistent (.misplaced _ _) => True
  | .rejected e => e.OutOfPlace
  | _ => False

/-- A change of the circuit is refused with this error, or a text for the sake of a command that is
held against the circuit. -/
inductive Circuit.RefusesWith (c : Circuit) : CircuitError → Prop where
  | change {change : Change} {e : CircuitError}
      (h : (change.edit.apply c).result = .error (.refused e)) : c.RefusesWith e
  | command {command : Command} {e : CircuitError}
      (h : c.checkCommand command = .error (.refused e)) : c.RefusesWith (.rejected e)

/-- The check refuses without naming an operand. -/
def NamesNone {α : Type} (check : Except Failure α) : Prop :=
  ∀ e, check = .error (.refused e) → e.operand? = none

section NamesNone

variable {α β : Type}

theorem NamesNone.ok (a : α) : NamesNone (.ok a) := nofun

theorem NamesNone.bind {check : Except Failure α} {next : α → Except Failure β}
    (h : NamesNone check) (hn : ∀ a, NamesNone (next a)) : NamesNone (check >>= next) := by
  cases check with
  | ok a => exact hn a
  | error f =>
    rintro e ⟨⟩
    exact h e rfl

theorem namesNone_lift {check : Except CircuitError α}
    (h : ∀ e, check = .error e → e.operand? = none) : NamesNone (Failure.lift check) := by
  cases check with
  | ok a => exact .ok a
  | error e =>
    rintro _ ⟨⟩
    exact h e rfl

theorem namesNone_guard (o : CallOptions) : NamesNone o.guard := by
  intro e he
  have h := o.guardOutcome
  rw [he] at h
  cases h with
  | conflict | outOfRange => rfl

theorem namesNone_checkCall (function : String) (h : Handle) (inputs outputs : List UInt32)
    (bits : List Bit) : NamesNone (Failure.lift (checkCall function h inputs outputs bits)) := by
  refine namesNone_lift fun e he => ?_
  rcases ((verdict_checkCall function h inputs outputs bits).error_iff e).1 he with
    ⟨_, _, _, rfl⟩ | ⟨-, ⟨-, rfl⟩ | ⟨-, -, rfl⟩⟩
  · rfl
  · rfl
  · rfl

theorem namesNone_checkRegisters (function : String) (h : Handle) (inputs outputs : List Register) :
    NamesNone (Failure.lift (checkRegisters function h inputs outputs)) := by
  refine namesNone_lift fun e he => ?_
  rcases ((verdict_checkRegisters function h inputs outputs).error_iff e).1 he with
    ⟨_, _, _, rfl⟩ | ⟨-, -, rfl⟩
  · rfl
  · rfl

theorem namesNone_checkRegisterCall (c : Circuit) (function : String) (h : Handle)
    (inputs outputs : List Register) :
    NamesNone (checkRegisterCall c function h inputs outputs) := by
  rw [checkRegisterCall_eq]
  refine NamesNone.bind ?_ fun _ => ?_
  · split
    · exact namesNone_checkRegisters function h inputs outputs
    · exact .ok ()
  · -- the registers of the circuit may share names, which the verdict of this check rules out
    intro e he
    rcases checkKnown_error he with hf | ⟨r, hf⟩ <;> cases hf
    rfl

end NamesNone

/-- If placing a call is refused with an operand named, the search for a wrong bit or slot has found
it. -/
theorem Placement.unitFault_of_operand? {p : Placement} {c : Circuit}
    {check : Except Failure Unit} (hcheck : NamesNone check) {e : CircuitError} {u : Operand}
    (h : p.addition c check = .error (.refused e)) (hu : e.operand? = some u) :
    ∃ bits slots, UnitFault (c.containsBit ·) bits slots e := by
  cases check with
  | error f =>
    cases h
    rw [hcheck e rfl] at hu
    cases hu
  | ok _ =>
    rw [addition, ok_bind] at h
    have hp : p.verdict c = .error (.refused e) := by
      cases hv : p.verdict c with
      | ok terms =>
        rw [hv] at h
        cases h
      | error f =>
        rw [hv, error_bind] at h
        cases h
        rfl
    rcases ((p.verdict_placement c).error_iff _).1 hp with
      he | ⟨guard, -, ⟨e', hf, ⟨⟩⟩ | ⟨-, -, ⟨⟩⟩⟩
    · rw [namesNone_guard p.options e he] at hu
      cases hu
    · exact ⟨_, _, hf⟩

/-- An error of a change that names an operand is one of the search for a wrong bit or slot. -/
theorem Change.unitFault_of_operand? {change : Change} {c : Circuit} {e : CircuitError}
    {u : Operand} (h : (change.edit.apply c).result = .error (.refused e))
    (hu : e.operand? = some u) : ∃ bits slots, UnitFault (c.containsBit ·) bits slots e := by
  have ha : change.addition c = .error (.refused e) := by
    rw [apply_result] at h
    cases ha : change.addition c with
    | ok a =>
      rw [ha] at h
      cases h
    | error f =>
      rw [ha] at h
      cases h
      rfl
  cases change with
  | addRegister name size =>
    rw [addition] at ha
    by_cases hn : (c.register? name).isSome
    · rw [if_pos hn] at ha
      cases ha
      cases hu
    · rw [if_neg hn] at ha
      split at ha <;> cases ha
  | growSlots least => cases ha
  | addCall function h inputs outputs bits slots options =>
    exact Placement.unitFault_of_operand? (namesNone_checkCall _ _ _ _ _) ha hu
  | addRegisterCall function h inputs outputs slots options =>
    exact Placement.unitFault_of_operand? (namesNone_checkRegisterCall _ _ _ _ _) ha hu

/-- How an error names an operand: the circuit does not have it, or has it and finds it repeated, or
it is out of place, which is found before it is looked for in the circuit. -/
inductive Circuit.Names (c : Circuit) : Operand → CircuitError → Prop where
  | unknownBit (b : Bit) : c.Names (.bit b) (.unknownBit b)
  | unknownSlot (s : Slot) : c.Names (.slot s) (.unknownSlot s)
  | repeated {u : Operand} (h : c.HasOperand u) : c.Names u (.duplicateArgument u)
  | misplaced (u : Operand) (op : Operation) : c.Names u (.inconsistent (.misplaced u op))
  | rejected {u : Operand} {e : CircuitError} (h : c.Names u e) : c.Names u (.rejected e)

theorem UnitFault.names {c : Circuit} {bits : List Bit} {slots : List Slot} {e : CircuitError}
    {u : Operand} (h : UnitFault (c.containsBit ·) bits slots e) (hu : e.operand? = some u) :
    c.Names u e := by
  cases h with
  | unknownBit =>
    cases hu
    exact .unknownBit _
  | repeatedBit _ known_b =>
    cases hu
    exact .repeated known_b
  | repeatedSlot =>
    cases hu
    exact .repeated trivial

theorem Circuit.RefusesWith.names {c : Circuit} {e : CircuitError} {u : Operand}
    (h : c.RefusesWith e) (hu : e.operand? = some u) : c.Names u e := by
  cases h with
  | change h =>
    obtain ⟨bits, slots, hf⟩ := Change.unitFault_of_operand? h hu
    exact hf.names hu
  | @command command e h =>
    refine .rejected ?_
    have hf : CommandFault (c.containsBit ·) c.slotCount command (.refused e) :=
      ((verdict_checkCommand c command).error_iff _).1 h
    cases hf with
    | condition | counts | argumentCount => cases hu
    | misplaced =>
      cases hu
      exact .misplaced _ _
    | unknownSlot =>
      cases hu
      exact .unknownSlot _
    | units _ _ _ _ fault => exact fault.names hu

theorem CircuitError.message_unknownBit (b : Bit) :
    (unknownBit b).message = "bit " ++ b.text ++ " is not part of the circuit" := rfl

theorem CircuitError.message_unknownSlot (s : Slot) :
    (unknownSlot s).message =
      "wasm state " ++ Nat.repr s.index.toNat ++ " is not part of the circuit" := rfl

theorem CircuitError.message_duplicateArgument (u : Operand) :
    (duplicateArgument u).message =
      "unit " ++ u.text ++ " appears more than once in the operation arguments" := rfl

theorem CircuitError.message_misplaced (u : Operand) (op : Operation) :
    (inconsistent (.misplaced u op)).message =
      "invalid circuit: " ++ (Inconsistency.misplaced u op).message := rfl

theorem CircuitError.message_rejected (e : CircuitError) :
    (rejected e).message = "circuit serialization failed: " ++ e.message := rfl

/-- The first character of an error, which tells the ways to name an operand apart. -/
def CircuitError.initial : CircuitError → Char
  | .unknownBit _ => 'b'
  | .unknownSlot _ => 'w'
  | .duplicateArgument _ => 'u'
  | .inconsistent _ => 'i'
  | _ => 'c'

theorem Circuit.Names.head?_message {c : Circuit} {u : Operand} {e : CircuitError}
    (h : c.Names u e) : e.message.toList.head? = some e.initial := by
  cases h with
  | unknownBit => simp [CircuitError.message_unknownBit, CircuitError.initial]
  | unknownSlot => simp [CircuitError.message_unknownSlot, CircuitError.initial]
  | repeated => simp [CircuitError.message_duplicateArgument, CircuitError.initial]
  | misplaced => simp [CircuitError.message_misplaced, CircuitError.initial]
  | rejected => simp [CircuitError.message_rejected, CircuitError.initial]

theorem Circuit.Names.initial_eq {c : Circuit} {u v : Operand} {e e' : CircuitError}
    (h : c.Names u e) (h' : c.Names v e') (hm : e.message = e'.message) :
    e.initial = e'.initial := by
  have hi := h.head?_message
  rw [hm, h'.head?_message] at hi
  exact (Option.some.inj hi).symm

/-- The text of an error tells the operand that it names, unless this is out of place. -/
theorem Circuit.Names.eq_of_message {c : Circuit} (hc : c.ReservesStates) {u v : Operand}
    {e e' : CircuitError} (h : c.Names u e) (h' : c.Names v e') (hp : ¬ e.OutOfPlace)
    (hm : e.message = e'.message) : u = v := by
  induction h generalizing e' with
  | unknownBit b =>
    have hi := (unknownBit b).initial_eq h' hm
    cases h' with
    | unknownBit b' =>
      rw [CircuitError.message_unknownBit, CircuitError.message_unknownBit, String.append_left_inj,
        String.append_right_inj, Bit.text_inj] at hm
      rw [hm]
    | unknownSlot | repeated | misplaced | rejected => simp [CircuitError.initial] at hi
  | unknownSlot s =>
    have hi := (unknownSlot s).initial_eq h' hm
    cases h' with
    | unknownSlot s' =>
      rw [CircuitError.message_unknownSlot, CircuitError.message_unknownSlot,
        String.append_left_inj, String.append_right_inj] at hm
      rw [← String.toList_inj, Nat.toList_repr, Nat.toList_repr] at hm
      exact congrArg (Operand.slot ∘ Slot.mk) (digits_inj hm)
    | unknownBit | repeated | misplaced | rejected => simp [CircuitError.initial] at hi
  | repeated hu =>
    have hi := (repeated hu).initial_eq h' hm
    cases h' with
    | repeated hv => exact (hc.text_inj hu hv).1 (NamingLine.repeated.shows.eq_iff.1 hm)
    | unknownBit | unknownSlot | misplaced | rejected => simp [CircuitError.initial] at hi
  | misplaced => exact absurd trivial hp
  | rejected h ih =>
    have hi := (rejected h).initial_eq h' hm
    cases h' with
    | rejected h' =>
      rw [CircuitError.message_rejected, CircuitError.message_rejected,
        String.append_right_inj] at hm
      exact ih h' hp hm
    | unknownBit | unknownSlot | repeated | misplaced => simp [CircuitError.initial] at hi

/-- Two operands are shown alike only if they are the same, or one is a bit of a register that is
named as slots are shown and the other is the slot of its index. So the text of a bit tells the bit.
In a circuit without such a register, the error that an operand is unknown or repeated tells the
operand. Any line tells an operand of the circuit at the place where it names it. The whole line of
a command of a known operation tells all its operands if no name has in it what stands between them.
-/
theorem shown_operands_identified :
    (∀ u v : Operand, u.text = v.text ↔ u = v ∨ u.Collide v ∨ v.Collide u) ∧
      (∀ a b : Bit, a.text = b.text ↔ a = b) ∧
      ∀ c : Circuit, (∀ r ∈ c.registers, r.name ≠ stateRegister) →
        (∀ e e' u v, c.RefusesWith e → c.RefusesWith e' → e.operand? = some u →
          e'.operand? = some v → ¬ e.OutOfPlace → e.message = e'.message → u = v) ∧
        (∀ line, NamingLine line → ∀ u v, c.HasOperand u → c.HasOperand v →
          (line u = line v ↔ u = v)) ∧
        ((∀ r ∈ c.registers, ¬ [',', ' '] <:+: r.name.toList) → ∀ op args args' group group',
          (∀ u ∈ args, c.HasOperand u) → (∀ u ∈ args', c.HasOperand u) →
          (Entry.addingCommand ⟨op, args, group⟩).line =
            (Entry.addingCommand ⟨op, args', group'⟩).line → args = args') := by
  refine ⟨fun _ _ => Operand.text_eq_iff, fun _ _ => Bit.text_inj, fun c hc => ⟨?_, ?_, ?_⟩⟩
  · intro e e' u v he he' hu hv hp hm
    exact (he.names hu).eq_of_message hc (he'.names hv) hp hm
  · intro line hline u v hu hv
    exact hline.shows.eq_iff.trans (Circuit.ReservesStates.text_inj hc hu hv)
  · intro hs op args args' group group' hu hu' h
    exact Circuit.ReservesStates.texts_inj hc hs hu hu' (texts_eq_of_line h)

/-- A call on bits and no slot. -/
def bitsCall (function : String) (bits : List Bit) : Change :=
  .addCall function uncheckedHandle [bits.length.toUInt32] [] bits (some []) {}

/-- A call with one register as its input and its output. -/
def twiceCall (r : Register) : Change := .addRegisterCall "f" uncheckedHandle [r] [r] none {}

/-- An operation on one bit and one slot. -/
def bitAndSlot : Operation := .call (.ofWidths "f" uncheckedHandle.uid [1] [] 1)

theorem threeBits_operands_identified :
    let line u := (Entry.addingCommand ⟨bitAndSlot, [] ++ u :: [.slot ⟨0⟩], none⟩).line
    (∀ r ∈ threeBits.registers, r.name ≠ stateRegister) ∧
      (∃ e e' u v,
        ((bitsCall "f" [⟨"c", 0⟩, ⟨"c", 0⟩]).edit.apply threeBits).result = .error (.refused e) ∧
        ((twiceCall ⟨"c", 3⟩).edit.apply threeBits).result = .error (.refused e') ∧
        e.operand? = some u ∧ e'.operand? = some v ∧ ¬ e.OutOfPlace ∧ e.message = e'.message ∧
        u = v) ∧
      (NamingLine line ∧ threeBits.HasOperand (.bit ⟨"c", 1⟩) ∧
        line (.bit ⟨"c", 1⟩) ≠ line (.slot ⟨0⟩)) ∧
      (∀ r ∈ threeBits.registers, ¬ [',', ' '] <:+: r.name.toList) ∧
      ∃ args args', (∀ u ∈ args, threeBits.HasOperand u) ∧ (∀ u ∈ args', threeBits.HasOperand u) ∧
        (Entry.addingCommand ⟨bitAndSlot, args, none⟩).line =
          (Entry.addingCommand ⟨bitAndSlot, args', some "group"⟩).line ∧
        args = args' := by
  have hc : ∀ r ∈ threeBits.registers, r.name ≠ stateRegister := by decide
  have hs : ∀ r ∈ threeBits.registers, ¬ [',', ' '] <:+: r.name.toList := by decide
  have hbits : ((bitsCall "f" [⟨"c", 0⟩, ⟨"c", 0⟩]).edit.apply threeBits).result =
      .error (.refused (.duplicateArgument (.bit ⟨"c", 0⟩))) := by decide +kernel
  have htwice : ((twiceCall ⟨"c", 3⟩).edit.apply threeBits).result =
      .error (.refused (.duplicateArgument (.bit ⟨"c", 0⟩))) := by decide +kernel
  have hb : threeBits.HasOperand (.bit ⟨"c", 1⟩) := by
    show threeBits.containsBit ⟨"c", 1⟩ = true
    decide +kernel
  have hline := NamingLine.command bitAndSlot [] [.slot ⟨0⟩] none
  have hargs : ∀ u ∈ [.bit ⟨"c", 1⟩, .slot ⟨0⟩], threeBits.HasOperand u := by
    simp only [List.forall_mem_cons]
    exact ⟨hb, trivial, List.forall_mem_nil _⟩
  obtain ⟨herror, hlines, hcommands⟩ := shown_operands_identified.2.2 threeBits hc
  refine ⟨hc, ⟨_, _, _, _, hbits, htwice, rfl, rfl, id, rfl, ?_⟩, ⟨hline, hb, fun h => ?_⟩, hs,
    _, _, hargs, hargs, rfl, ?_⟩
  · exact herror _ _ _ _ (.change hbits) (.change htwice) rfl rfl id rfl
  · exact absurd ((hlines _ hline _ (.slot ⟨0⟩) hb trivial).1 h) nofun
  · exact hcommands hs bitAndSlot _ _ none (some "group") hargs hargs rfl

/-! ## Names that look alike -/

/-- A circuit in which two bits side by side are shown as two others are. -/
def commaNames : Circuit :=
  ({} : Circuit).after
    [.addRegister "a" 1, .addRegister "b[0], c" 1, .addRegister "a[0], b" 1, .addRegister "c" 1]

/-- A circuit in which a bit is shown as the end of a function before another bit. -/
def blankNames : Circuit := ({} : Circuit).after [.addRegister "x@93a44bbb b" 1, .addRegister "b" 1]

theorem reachable_commaNames : Reachable Change.Proper commaNames :=
  .change (.change (.change (.change (.source .empty) trivial) trivial) trivial) trivial

theorem reachable_blankNames : Reachable Change.Proper blankNames :=
  .change (.change (.source .empty) trivial) trivial

/-- In `commaNames`, two calls with one operation but different operands leave the same line. In
`blankNames`, two calls of different functions do. In either, what is said of an operand out of
place can also mean a bit that the circuit does not have. -/
theorem look_alikes_ambiguous :
    let left := (bitsCall "f" [⟨"a", 0⟩, ⟨"b[0], c", 0⟩]).edit.apply commaNames
    let right := (bitsCall "f" [⟨"a[0], b", 0⟩, ⟨"c", 0⟩]).edit.apply commaNames
    let short := (bitsCall "f" [⟨"x@93a44bbb b", 0⟩]).edit.apply blankNames
    let long := (bitsCall "f@93a44bbb x" [⟨"b", 0⟩]).edit.apply blankNames
    let slotFirst := Command.mk bitAndSlot [.slot ⟨0⟩, .slot ⟨0⟩] none
    let bitLast := Command.mk bitAndSlot [.bit ⟨"b", 0⟩, .bit ⟨stateRegister, 0⟩] none
    uncheckedHandle.Loaded ∧
    (Reachable Change.Proper commaNames ∧ (∀ r ∈ commaNames.registers, r.name ≠ stateRegister) ∧
      left.value.commands.map Command.args = [[.bit ⟨"a", 0⟩, .bit ⟨"b[0], c", 0⟩]] ∧
      left.trail.map Entry.line = ["DEBUG adding command WASM f@93a44bbb a[0], b[0], c[0];"] ∧
      right.value.commands.map Command.args = [[.bit ⟨"a[0], b", 0⟩, .bit ⟨"c", 0⟩]] ∧
      right.trail.map Entry.line = ["DEBUG adding command WASM f@93a44bbb a[0], b[0], c[0];"]) ∧
    (Reachable Change.Proper blankNames ∧ (∀ r ∈ blankNames.registers, r.name ≠ stateRegister) ∧
      short.value.commands.map Command.args = [[.bit ⟨"x@93a44bbb b", 0⟩]] ∧
      short.trail.map Entry.line = ["DEBUG adding command WASM f@93a44bbb x@93a44bbb b[0];"] ∧
      long.value.commands.map Command.args = [[.bit ⟨"b", 0⟩]] ∧
      long.trail.map Entry.line = ["DEBUG adding command WASM f@93a44bbb x@93a44bbb b[0];"]) ∧
    ∃ e e',
      blankNames.checkCommand slotFirst = .error (.refused e) ∧
      blankNames.checkCommand bitLast = .error (.refused e') ∧
      e.operand? = some (.slot ⟨0⟩) ∧ e'.operand? = some (.bit ⟨stateRegister, 0⟩) ∧
      e.message = e'.message := by
  refine ⟨uncheckedHandle_loaded, ⟨reachable_commaNames, by decide, ?_, ?_, ?_, ?_⟩,
    ⟨reachable_blankNames, by decide, ?_, ?_, ?_, ?_⟩,
    .inconsistent (.misplaced (.slot ⟨0⟩) bitAndSlot),
    .inconsistent (.misplaced (.bit ⟨stateRegister, 0⟩) bitAndSlot), ?_, ?_, rfl, rfl, ?_⟩
  all_goals decide +kernel

end CallCircuit
