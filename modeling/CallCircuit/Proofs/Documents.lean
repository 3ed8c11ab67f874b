import CallCircuit.Proofs.Codec
import CallCircuit.Proofs.Reachable

/-!
# Circuits and their documents

A circuit that has been read has no deeper operations than a document has room for, and no change
adds deeper ones. So the text of a reachable circuit can be read, and since the circuit is sound
it reads back as what it was.

* `Operation.layers_of_ofJson?`: what has been read had room;
* `Reachable.nests`: so the operations of reachable circuits have room in a document;
* `Reachable.ofText_toText`: reading the text of a reachable circuit gives the circuit.
-/

namespace CallCircuit

/-! ## Depth -/

namespace Json

theorem fits_untag {j tag body : Json} {room : Nat} (hf : j.fits room = true)
    (h : j.untag? = some (tag, body)) : body.fits room = true := by
  match j, room with
  | .null, _ | .bool _, _ | .number _, _ | .string _, _ | .array [], _ => cases h
  | .array (_ :: _), 0 | .object _, 0 => cases hf
  | .array (item :: items), room + 1 =>
    cases h
    rw [fits, fitsItems, Bool.and_eq_true] at hf
    exact hf.2
  | .object members, room + 1 =>
    rw [fits, fitsMembers_eq, List.all_eq_true] at hf
    rw [untag?] at h
    split at h
    · cases h
      rw [fits, fitsMembers_eq, List.all_eq_true]
      exact fun member hm => hf member (List.mem_filter.1 hm).1
    · cases h

theorem mem_of_mapM_eq_some {α β : Type} {f : α → Option β} {l : List α} {ys : List β}
    (h : l.mapM f = some ys) {y : β} (hy : y ∈ ys) : ∃ x ∈ l, f x = some y := by
  induction l generalizing ys with
  | nil =>
    cases h
    cases hy
  | cons x l ih =>
    rw [List.mapM_cons] at h
    obtain ⟨z, hz, zs, hzs, h⟩ : ∃ z, f x = some z ∧ ∃ zs, l.mapM f = some zs ∧ z :: zs = ys := by
      simpa [Option.bind_eq_some_iff] using h
    subst h
    rcases List.mem_cons.1 hy with rfl | hy
    · exact ⟨x, List.mem_cons_self, hz⟩
    · obtain ⟨x', hx, hf⟩ := ih hzs hy
      exact ⟨x', List.mem_cons_of_mem x hx, hf⟩

theorem mem_of_member? {members : List (Text × Json)} {name : String} {value : Json}
    (h : member? members name = some (some value)) : ∃ key, (key, value) ∈ members := by
  unfold member? at h
  split at h
  · cases h
  · rename_i hm
    cases h
    exact ⟨_, (List.mem_filter.1 (hm ▸ List.mem_singleton_self _)).1⟩
  · cases h

/-- The fields of a value nest less deep than the value. -/
theorem fits_field {j : Json} {names : List String} {values : List (Option Json)} {room : Nat}
    (hf : j.fits room = true) (h : j.fields? names = some values) :
    ∃ inner, room = inner + 1 ∧ ∀ value, some value ∈ values → value.fits inner = true := by
  match j, room with
  | .null, _ | .bool _, _ | .number _, _ | .string _, _ => cases h
  | .array _, 0 | .object _, 0 => cases hf
  | .array items, inner + 1 =>
    refine ⟨inner, rfl, fun value hv => ?_⟩
    rw [fits, fitsItems_eq, List.all_eq_true] at hf
    rw [fields?] at h
    split at h
    · cases h
      exact hf value (by simpa using hv)
    · cases h
  | .object members, inner + 1 =>
    refine ⟨inner, rfl, fun value hv => ?_⟩
    rw [fits, fitsMembers_eq, List.all_eq_true] at hf
    rw [fields?] at h
    split at h
    · obtain ⟨name, -, hm⟩ := mem_of_mapM_eq_some h hv
      obtain ⟨key, hm⟩ := mem_of_member? hm
      have := hf _ hm
      rw [Bool.and_eq_true] at this
      exact this.2
    · cases h

end Json

theorem ModuleCall.room_of_ofJson? {j : Json} {c : ModuleCall} {room : Nat}
    (hf : j.fits room = true) (h : ModuleCall.ofJson? j = some c) : 2 ≤ room := by
  unfold ModuleCall.ofJson? at h
  split at h
  · rename_i inputWidths _ _ _ hj
    obtain ⟨inner, rfl, hw⟩ := Json.fits_field hf hj
    have hw := hw inputWidths (by simp)
    cases inputWidths with
    | array items =>
      cases inner with
      | zero => cases hw
      | succ inner => omega
    | _ => simp [Json.list?] at h
  · cases h

theorem Operation.layers_of_ofLayers? {inner : Bool} {fuel room : Nat} {j : Json} {op : Operation}
    (hf : j.fits room = true) (h : ofLayers? inner fuel j = some op) : op.layers + 2 ≤ room := by
  induction fuel generalizing inner j room op with
  | zero => cases h
  | succ fuel ih =>
    rw [ofLayers?] at h
    obtain ⟨⟨tag, body⟩, hj, h⟩ := Option.bind_eq_some_iff.1 h
    obtain ⟨kind, -, h⟩ := Option.bind_eq_some_iff.1 h
    have hb := Json.fits_untag hf hj
    cases kind with
    | call =>
      -- a call has no layers, and needs room for itself and for the lists of widths in it
      obtain ⟨c, hc, rfl⟩ := Option.map_eq_some_iff.1 h
      rw [layers, Nat.zero_add]
      exact c.room_of_ofJson? hb hc
    | conditional =>
      dsimp only at h
      split at h
      · rename_i nested width value hfields
        obtain ⟨room, rfl, hv⟩ := Json.fits_field hb hfields
        simp only [bind, Option.bind_eq_some_iff] at h
        obtain ⟨op, hop, _, -, _, -, ⟨⟩⟩ := h
        have := ih (hv nested (by simp)) hop
        rw [layers]
        omega
      · cases h

/-- An operation that has been read had room for its layers. -/
theorem Operation.layers_of_ofJson? {room : Nat} {j : Json} {op : Operation}
    (h : Operation.ofJson? room j = some op) : op.layers + 2 ≤ room := by
  rw [ofJson?] at h
  split at h
  · rename_i hf
    exact layers_of_ofLayers? hf h
  · cases h

theorem Command.layers_of_ofJson? {room : Nat} {j : Json} {command : Command}
    (h : Command.ofJson? room j = some command) : command.op.layers + 2 ≤ room := by
  rw [Command.ofJson?] at h
  split at h
  · simp only [bind, Option.bind_eq_some_iff] at h
    obtain ⟨op, hop, _, -, _, -, ⟨⟩⟩ := h
    exact Operation.layers_of_ofJson? hop
  · cases h

/-- The operations of the commands have room in a document. -/
def Nests (commands : List Command) : Prop :=
  ∀ command ∈ commands, command.op.layers + 2 ≤ Description.operationRoom

theorem Description.nests_of_ofJson? {j : Json} {d : Description}
    (h : Description.ofJson? j = some d) : Nests d.commands := by
  rw [Description.ofJson?] at h
  split at h
  · rename_i field? _
    simp only [bind, Option.bind_eq_some_iff] at h
    obtain ⟨_, -, _, -, _, -, _, -, commands, hc, ⟨⟩⟩ := h
    intro command hm
    cases field? with
    | none =>
      cases hc
      cases hm
    | some field =>
      cases field with
      | array items =>
        obtain ⟨item, -, hi⟩ := Json.mem_of_mapM_eq_some hc hm
        exact Command.layers_of_ofJson? hi
      | null | bool _ | number _ | string _ | object _ => cases hc
  · cases h

/-! ## Reachable circuits -/

theorem Circuit.IsSource.nests {c : Circuit} (h : c.IsSource) : Nests c.commands := by
  cases h with
  | empty => exact fun _ => nofun
  | named name => exact fun _ => nofun
  | withBits bitCount =>
    rw [commands_pushDefaultRegister]
    exact fun _ => nofun
  | read h =>
    obtain ⟨_, d, -, hd, -, rfl⟩ := ofText_ok h
    exact Description.nests_of_ofJson? hd

theorem Placement.layers_operation (p : Placement) (guard : Option Guard) :
    (p.operation guard).layers ≤ 1 := by
  cases guard with
  | none => exact Nat.zero_le 1
  | some g => exact Nat.le_refl 1

theorem Change.Makes.nests {c c' : Circuit} {change : Change} (h : change.Makes c c')
    (hc : Nests c.commands) : Nests c'.commands := by
  cases h with
  | nothing => exact hc
  | register fresh => exact hc
  | slots least => exact hc
  | @command _ p terms places placed =>
    rw [Nests, Circuit.withCommand, List.forall_mem_append, List.forall_mem_singleton]
    have := p.layers_operation terms.1
    exact ⟨hc, Nat.le_trans (Nat.add_le_add_right this 2) (by decide)⟩

theorem Reachable.nests {allowed : Change → Prop} {c : Circuit} (h : Reachable allowed c) :
    Nests c.commands :=
  h.invariant (fun _ => Circuit.IsSource.nests) fun _ _ _ _ hc hm => hm.nests hc

/-- What reading comes to when the text has this description and nothing after it: the description
is built, and a refusal becomes one of the text. -/
def Description.reading (d : Description) : Except Failure Circuit × List Entry :=
  let out := d.build.apply {}
  ((out.result.map fun _ => out.value).mapError Circuit.rejected, out.trail)

theorem Circuit.ofText_eq_reading {s : String} {j : Json} {d : Description}
    (hj : Json.read? s = some (j, [])) (hd : Description.ofJson? j = some d) :
    Circuit.ofText s = d.reading := by
  simp only [ofText, hj, hd, Description.reading]
  cases (d.build.apply {}).result with
  | ok u => rfl
  | error f => rfl

/-- The text of a circuit whose operations have room is read as its description. -/
theorem Circuit.reading_of_toText {c : Circuit} (hn : Nests c.commands) :
    Circuit.ofText c.toText = c.description.reading :=
  ofText_eq_reading (Json.read?_write .indented c.isPlain_toJson)
    (Description.ofJson?_toJson hn)

/-- The text of a sound circuit whose operations have room reads back as the circuit. -/
theorem Circuit.Sound.reads_back {c : Circuit} (h : c.Sound) (hn : Nests c.commands) :
    (Circuit.ofText c.toText).1 = .ok c := by
  have hb := (Description.build_yields h).apply
  rw [h.circuit_description] at hb
  rw [Circuit.reading_of_toText hn, Description.reading, hb]
  rfl

/-- Reading the text of a circuit that is reached by proper changes gives the circuit. -/
theorem Reachable.ofText_toText {c : Circuit} (h : Reachable Change.Proper c) :
    (Circuit.ofText c.toText).1 = .ok c :=
  h.sound.reads_back h.nests

theorem guardedCircuit_ofText_toText :
    Reachable Change.Proper guardedCircuit ∧
      (Circuit.ofText guardedCircuit.toText).1 = .ok guardedCircuit :=
  ⟨reachable_guardedCircuit, reachable_guardedCircuit.ofText_toText⟩

end CallCircuit
