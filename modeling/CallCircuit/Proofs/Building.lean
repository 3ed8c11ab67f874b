import CallCircuit.Circuit.Description
import CallCircuit.Proofs.Commands
import CallCircuit.Proofs.Edits

/-!
# Which descriptions build a circuit

`Description.Consistent` says in terms of the description alone when its parts fit together, and
`Description.FirstFault` what is the first thing wrong with one whose parts do not: a register whose
name is taken or whose bits have no room, then the bit list, then a command.

* `addRegister_yields_ok`, `addRegister_yields_error`: adding a register among others;
* `build_yields`, `build_yields_error`: what building a description comes to in either case;
* `consistent_or_firstFault`: one of the two is the case;
* `build_exactly`: so a consistent description, and no other, builds the circuit it describes;
* `vastDescription_unbuilt`: a description whose only fault is that a register has no room.
-/

namespace CallCircuit

open Edit Update

/-! ## Descriptions whose parts fit together -/

namespace Description

/-- The name of the register is that of a register before it. -/
def RepeatedName (before : List Register) (r : Register) : Prop :=
  r.name ∈ before.map Register.name

/-- A register of this name is there already, or there is no room for the bits. -/
def BadRegister (before : List Register) (r : Register) : Prop := RepeatedName before r ∨ ¬ r.Fits

/-- Why a register cannot be added behind others. -/
inductive RegisterFault (before : List Register) (r : Register) : Failure → Prop where
  | taken (repeated : RepeatedName before r) :
      RegisterFault before r (.refused (.registerExists r.name))
  | room (new : ¬ RepeatedName before r) (large : ¬ r.Fits) : RegisterFault before r .capacity

/-- The registers have names of their own, and there is room for the bits of each. -/
structure RegistersAgree (d : Description) : Prop where
  names : (d.registers.map Register.name).Nodup
  sizes : ∀ r ∈ d.registers, r.Fits

/-- The command may stand in the described circuit. -/
def Admits (d : Description) (command : Command) : Prop :=
  CommandFits (·.LiesIn d.registers) d.slotCount command

/-- The command may not stand in the described circuit. -/
def BadCommand (d : Description) (_ : List Command) (command : Command) : Prop := ¬ d.Admits command

/-- The bit list is left out or is that of the registers. -/
def BitsAgree (d : Description) : Prop :=
  ∀ bits, d.bits = some bits → bits = d.registers.flatMap Register.bits

/-- The parts of a description fit together. -/
structure Consistent (d : Description) : Prop where
  registers : d.RegistersAgree
  bits : d.BitsAgree
  commands : ∀ command ∈ d.commands, d.Admits command

/-- What is the first thing wrong with a description. -/
inductive FirstFault (d : Description) : Failure → Prop where
  | register {before : List Register} {r : Register} {f : Failure}
      (first : FirstOffender BadRegister d.registers before r)
      (fault : RegisterFault before r f) : FirstFault d f
  | bits (registers : d.RegistersAgree) (bits : ¬ d.BitsAgree) :
      FirstFault d (.refused (.inconsistent .bitList))
  | command {before : List Command} {command : Command} {f : Failure}
      (registers : d.RegistersAgree) (bits : d.BitsAgree)
      (first : FirstOffender d.BadCommand d.commands before command)
      (fault : CommandFault (·.LiesIn d.registers) d.slotCount command f) : FirstFault d f

/-- The circuit that a description describes. -/
def circuit (d : Description) : Circuit :=
  ⟨d.name, d.registers, d.registers.flatMap Register.bits, d.slotCount, d.commands⟩

end Description

/-! ## Adding the parts -/

namespace Circuit

/-- The circuit with more registers and their bits. -/
def withRegisters (c : Circuit) (rs : List Register) : Circuit :=
  { c with registers := c.registers ++ rs, bits := c.bits ++ rs.flatMap Register.bits }

/-- The circuit with more commands. -/
def withCommands (c : Circuit) (commands : List Command) : Circuit :=
  { c with commands := c.commands ++ commands }

end Circuit

namespace Description

theorem isSome_register?_iff {c : Circuit} {r : Register} :
    (c.register? r.name).isSome ↔ RepeatedName c.registers r := by
  rw [Option.isSome_iff_ne_none, Ne, Circuit.register?_eq_none_iff, Classical.not_not, RepeatedName]

theorem addRegister_yields_ok {c : Circuit} {r : Register} (h : ¬ BadRegister c.registers r) :
    (addRegister r.name r.size).Yields c ⟨.ok r, c.withRegister r, [.addingRegister r]⟩ := by
  rw [BadRegister, not_or, Classical.not_not, ← isSome_register?_iff] at h
  have hr := addRegister_yields r.name r.size c
  rwa [if_neg h.1, if_pos h.2] at hr

theorem addRegister_yields_error {c : Circuit} {r : Register} {f : Failure}
    (h : RegisterFault c.registers r f) :
    ∃ t, (addRegister r.name r.size).Yields c ⟨.error f, c, t⟩ := by
  have hr := addRegister_yields r.name r.size c
  cases h with
  | taken repeated =>
    rw [if_pos (isSome_register?_iff.2 repeated)] at hr
    exact ⟨_, hr⟩
  | room new large =>
    rw [if_neg fun hs => new (isSome_register?_iff.1 hs), if_neg large] at hr
    exact ⟨_, hr⟩

/-- The register cannot be added behind those of the circuit and those before it. -/
def BadBehind (c : Circuit) (before : List Register) (r : Register) : Prop :=
  BadRegister (c.registers ++ before) r

theorem badBehind_withRegister (c : Circuit) (r : Register) :
    BadBehind (c.withRegister r) = fun before => BadBehind c (r :: before) := by
  funext before x
  simp [BadBehind, Circuit.withRegister]

theorem addRegisters_yields {c : Circuit} {rs : List Register} (h : Spotless (BadBehind c) rs) :
    (addRegisters rs).Yields c ⟨.ok (), c.withRegisters rs, rs.map .addingRegister⟩ := by
  induction rs generalizing c with
  | nil =>
    intro trail
    simp [addRegisters, Circuit.withRegisters]
  | cons r rs ih =>
    rw [spotless_cons, ← badBehind_withRegister, BadBehind, List.append_nil] at h
    intro trail
    rw [addRegisters, resume_bind, resume_discard, addRegister_yields_ok h.1 trail]
    have := ih h.2 (trail ++ [.addingRegister r])
    simpa [Circuit.withRegisters, Circuit.withRegister, Except.map] using this

theorem addRegisters_yields_error {c : Circuit} {rs before : List Register} {r : Register}
    {f : Failure} (h : FirstOffender (BadBehind c) rs before r)
    (hf : RegisterFault (c.registers ++ before) r f) :
    ∃ t, (addRegisters rs).Yields c ⟨.error f, c.withRegisters before, t⟩ := by
  induction rs generalizing c before with
  | nil => simp at h
  | cons s rs ih =>
    rw [firstOffender_cons, ← badBehind_withRegister] at h
    rcases h with ⟨-, rfl, rfl⟩ | ⟨hs, tail, rfl, h⟩
    · rw [List.append_nil] at hf
      obtain ⟨t, hr⟩ := addRegister_yields_error hf
      refine ⟨t, fun trail => ?_⟩
      rw [addRegisters, resume_bind, resume_discard, hr trail]
      simp [Circuit.withRegisters, Except.map]
    · rw [BadBehind, List.append_nil] at hs
      have hf' : RegisterFault ((c.withRegister s).registers ++ tail) r f := by
        rwa [Circuit.withRegister, List.append_assoc]
      obtain ⟨t, hr⟩ := ih h hf'
      refine ⟨.addingRegister s :: t, fun trail => ?_⟩
      have := hr (trail ++ [.addingRegister s])
      rw [addRegisters, resume_bind, resume_discard, addRegister_yields_ok hs trail]
      simpa [Circuit.withRegisters, Circuit.withRegister, Except.map] using this

/-- The circuit refuses the command. -/
def RefusedBy (c : Circuit) (_ : List Command) (command : Command) : Prop :=
  c.checkCommand command ≠ .ok ()

theorem checkCommand_withCommand (c : Circuit) (added command : Command) :
    (c.withCommand added).checkCommand command = c.checkCommand command :=
  checkCommand_congr (by rfl) (by rfl) command

theorem refusedBy_withCommand (c : Circuit) (command : Command) :
    RefusedBy (c.withCommand command) = fun before => RefusedBy c (command :: before) := by
  funext before x
  rw [RefusedBy, RefusedBy, checkCommand_withCommand]

theorem addCommands_yields {c : Circuit} {commands : List Command}
    (h : Spotless (RefusedBy c) commands) :
    (addCommands commands).Yields c
      ⟨.ok (), c.withCommands commands, commands.map .addingCommand⟩ := by
  induction commands generalizing c with
  | nil =>
    intro trail
    simp [addCommands, Circuit.withCommands]
  | cons command commands ih =>
    intro trail
    rw [spotless_cons, ← refusedBy_withCommand] at h
    have hc : c.checkCommand command = .ok () := Classical.not_not.1 h.1
    have := ih h.2 (trail ++ [.addingCommand command])
    simpa [addCommands, hc, pushCommand_yields command c trail, Circuit.withCommands,
      Circuit.withCommand] using this

theorem addCommands_yields_error {c : Circuit} {commands before : List Command} {command : Command}
    {f : Failure} (h : FirstOffender (RefusedBy c) commands before command)
    (hf : c.checkCommand command = .error f) :
    (addCommands commands).Yields c
      ⟨.error f, c.withCommands before, before.map .addingCommand⟩ := by
  induction commands generalizing c before with
  | nil => simp at h
  | cons next commands ih =>
    intro trail
    rw [firstOffender_cons, ← refusedBy_withCommand] at h
    rcases h with ⟨-, rfl, rfl⟩ | ⟨hn, tail, rfl, h⟩
    · simp [addCommands, hf, Circuit.withCommands]
    · have hc : c.checkCommand next = .ok () := Classical.not_not.1 hn
      have hf' : (c.withCommand next).checkCommand command = .error f :=
        (checkCommand_withCommand c next command).trans hf
      have := ih h hf' (trail ++ [.addingCommand next])
      simpa [addCommands, hc, pushCommand_yields next c trail, Circuit.withCommands,
        Circuit.withCommand] using this

/-! ## Building -/

variable {d : Description}

/-- The described circuit without its commands. -/
def bare (d : Description) : Circuit := { d.circuit with commands := [] }

/-- What the trail has of the registers and slots of the description. -/
def bareTrail (d : Description) : List Entry :=
  d.registers.map .addingRegister ++
    if 0 < d.slotCount then [.growingStates 0 d.slotCount] else []

/-- The part of building ahead of the commands. -/
def buildBare (d : Description) : Edit Unit := do
  Update.put { ← Update.current with name := d.name }
  addRegisters d.registers
  checkBitList d.bits
  discard <| growSlots d.slotCount

theorem build_eq (d : Description) : d.build = d.buildBare >>= fun _ => addCommands d.commands := by
  simp [build, buildBare]

/-- The described registers and their bits. -/
def tabled (d : Description) : Circuit := ({ name := d.name } : Circuit).withRegisters d.registers

theorem tabled_eq (d : Description) :
    d.tabled = ⟨d.name, d.registers, d.registers.flatMap Register.bits, 0, []⟩ := rfl

theorem checkBitList_yields (h : d.BitsAgree) :
    (checkBitList d.bits).Yields d.tabled ⟨.ok (), d.tabled, []⟩ := by
  intro trail
  unfold checkBitList
  cases hb : d.bits with
  | none => simp
  | some bs => simp [h bs hb, tabled_eq]

theorem checkBitList_yields_error (h : ¬ d.BitsAgree) :
    (checkBitList d.bits).Yields d.tabled
      ⟨.error (.refused (.inconsistent .bitList)), d.tabled, []⟩ := by
  intro trail
  unfold checkBitList
  cases hb : d.bits with
  | none => exact absurd (fun bs e => by simp [hb] at e) h
  | some bs =>
    have hne : bs ≠ d.tabled.bits := fun e => h fun bs' hb' => by
      rw [← Option.some.inj (hb.symm.trans hb'), e, tabled_eq]
    simp [hne]

theorem growSlots_tabled_yields (d : Description) :
    (growSlots d.slotCount).Yields d.tabled
      ⟨.ok d.bare.slotCount, d.bare,
        if 0 < d.slotCount then [.growingStates 0 d.slotCount] else []⟩ := by
  have h := growSlots_yields d.slotCount d.tabled
  by_cases h0 : 0 < d.slotCount
  · simpa [Circuit.withSlots, Circuit.growth, tabled_eq, h0, bare, circuit] using h
  · have hs : d.slotCount = 0 := UInt64.le_antisymm (UInt64.not_lt.1 h0) UInt64.zero_le
    simpa [Circuit.withSlots, Circuit.growth, tabled_eq, hs, bare, circuit] using h

theorem spotless_badRegister_iff : Spotless BadRegister d.registers ↔ d.RegistersAgree := by
  unfold BadRegister RepeatedName
  rw [spotless_or, spotless_iff_nodup_map, spotless_iff_forall]
  simp only [Classical.not_not]
  exact ⟨fun ⟨hn, hs⟩ => ⟨hn, hs⟩, fun h => ⟨h.names, h.sizes⟩⟩

theorem buildBare_yields (ht : d.RegistersAgree) (hb : d.BitsAgree) :
    d.buildBare.Yields {} ⟨.ok (), d.bare, d.bareTrail⟩ := by
  intro trail
  have hr := addRegisters_yields (c := { name := d.name }) (spotless_badRegister_iff.2 ht) trail
  simp only [buildBare, resume_bind, resume_current, resume_put, hr]
  have hl := checkBitList_yields hb (trail ++ d.registers.map .addingRegister)
  have hg := growSlots_tabled_yields d (trail ++ d.registers.map .addingRegister)
  rw [tabled, List.append_nil] at hl
  rw [tabled] at hg
  rw [hl]
  simp only [resume_discard, hg, bareTrail, List.append_assoc]
  rfl

theorem buildBare_yields_register {before : List Register} {r : Register} {f : Failure}
    (h : FirstOffender BadRegister d.registers before r) (hf : RegisterFault before r f) :
    ∃ c t, d.buildBare.Yields {} ⟨.error f, c, t⟩ := by
  obtain ⟨t, hr⟩ := addRegisters_yields_error (c := { name := d.name }) h hf
  refine ⟨Circuit.withRegisters { name := d.name } before, t, fun trail => ?_⟩
  simp only [buildBare, resume_bind, resume_current, resume_put, hr trail]

theorem buildBare_yields_bits (ht : d.RegistersAgree) (hb : ¬ d.BitsAgree) :
    ∃ c t, d.buildBare.Yields {} ⟨.error (.refused (.inconsistent .bitList)), c, t⟩ := by
  refine ⟨d.tabled, d.registers.map .addingRegister, fun trail => ?_⟩
  have hr := addRegisters_yields (c := { name := d.name }) (spotless_badRegister_iff.2 ht) trail
  have hl := checkBitList_yields_error hb (trail ++ d.registers.map .addingRegister)
  rw [tabled, List.append_nil] at hl
  simp only [buildBare, resume_bind, resume_current, resume_put, hr, hl, tabled]

/-- The described circuit without its commands refuses what the description does not admit. -/
theorem verdict_bare (hn : (d.registers.map Register.name).Nodup) (command : Command) :
    Verdict (d.bare.checkCommand command) (fun _ => d.Admits command)
      (CommandFault (·.LiesIn d.registers) d.slotCount command) := by
  have h := verdict_checkCommand d.bare command
  rwa [Circuit.containsBit_eq (c := d.bare) hn] at h

theorem refusedBy_bare (hn : (d.registers.map Register.name).Nodup) :
    RefusedBy d.bare = d.BadCommand := by
  funext before command
  rw [RefusedBy, BadCommand, Ne, (verdict_bare hn command).ok_iff]

theorem build_yields (h : d.Consistent) :
    d.build.Yields {} ⟨.ok (), d.circuit, d.bareTrail ++ d.commands.map .addingCommand⟩ := by
  have hc : Spotless (RefusedBy d.bare) d.commands := by
    rw [refusedBy_bare h.registers.names]
    unfold BadCommand
    rw [spotless_iff_forall]
    exact fun command hm => Classical.not_not.2 (h.commands command hm)
  rw [build_eq]
  exact (buildBare_yields h.registers h.bits).bind (f := fun _ => addCommands d.commands)
    (addCommands_yields hc)

theorem build_yields_error {f : Failure} (h : d.FirstFault f) :
    ∃ c t, d.build.Yields {} ⟨.error f, c, t⟩ := by
  rw [build_eq]
  cases h with
  | register first fault =>
    obtain ⟨c, t, h⟩ := buildBare_yields_register first fault
    exact ⟨c, t, h.bind_error⟩
  | bits registers bits =>
    obtain ⟨c, t, h⟩ := buildBare_yields_bits registers bits
    exact ⟨c, t, h.bind_error⟩
  | command registers bits first fault =>
    rw [← refusedBy_bare registers.names] at first
    have hf := (verdict_bare registers.names _).error_iff _ |>.2 fault
    exact ⟨_, _, (buildBare_yields registers bits).bind (f := fun _ => addCommands d.commands)
      (addCommands_yields_error first hf)⟩

theorem BadRegister.exists_fault {before : List Register} {r : Register}
    (h : BadRegister before r) : ∃ f, RegisterFault before r f := by
  by_cases hr : RepeatedName before r
  · exact ⟨_, .taken hr⟩
  · exact ⟨_, .room hr (h.resolve_left hr)⟩

/-- A description whose parts do not fit together has a first fault. -/
theorem consistent_or_firstFault (d : Description) : d.Consistent ∨ ∃ f, d.FirstFault f := by
  rcases spotless_or_firstOffender BadRegister d.registers with ht | ⟨before, r, h⟩
  · have ht : d.RegistersAgree := spotless_badRegister_iff.1 ht
    by_cases hb : d.BitsAgree
    · rcases spotless_or_firstOffender d.BadCommand d.commands with hc | ⟨before, command, h⟩
      · unfold BadCommand at hc
        rw [spotless_iff_forall] at hc
        exact .inl ⟨ht, hb, fun command hm => Classical.not_not.1 (hc command hm)⟩
      · cases hx : d.bare.checkCommand command with
        | ok u => exact absurd (((verdict_bare ht.names command).ok_iff u).1 hx) h.2.1
        | error f =>
          exact .inr ⟨f, .command ht hb h (((verdict_bare ht.names command).error_iff f).1 hx)⟩
    · exact .inr ⟨_, .bits ht hb⟩
  · obtain ⟨f, hf⟩ := h.2.1.exists_fault
    exact .inr ⟨f, .register h hf⟩

theorem build_ok {c : Circuit} (hr : (d.build.apply {}).result = .ok ())
    (hv : (d.build.apply {}).value = c) : d.Consistent ∧ c = d.circuit := by
  rcases consistent_or_firstFault d with h | ⟨f, h⟩
  · rw [(build_yields h).apply] at hv
    exact ⟨h, hv.symm⟩
  · obtain ⟨_, _, he⟩ := build_yields_error h
    rw [he.apply] at hr
    cases hr

/-- Building a description succeeds exactly if its parts fit together, then with the circuit it
describes, and fails exactly with its first fault. -/
theorem build_exactly (d : Description) :
    (∀ c, (d.build.apply {}).result = .ok () ∧ (d.build.apply {}).value = c ↔
      d.Consistent ∧ c = d.circuit) ∧
    ∀ f, (d.build.apply {}).result = .error f ↔ d.FirstFault f := by
  rcases consistent_or_firstFault d with h | ⟨f, h⟩
  · have ha := (build_yields h).apply
    have hf (f : Failure) : ¬ d.FirstFault f := by
      intro hf
      obtain ⟨c, t, he⟩ := build_yields_error hf
      exact nomatch congrArg Outcome.result (ha.symm.trans he.apply)
    rw [ha]
    exact ⟨fun c => by simp [h, eq_comm], fun f => by simp [hf]⟩
  · obtain ⟨c, t, he⟩ := build_yields_error h
    have hc : ¬ d.Consistent := fun hc =>
      nomatch congrArg Outcome.result ((build_yields hc).apply.symm.trans he.apply)
    rw [he.apply]
    refine ⟨fun c => by simp [hc], fun g => ?_⟩
    constructor
    · rintro ⟨⟩
      exact h
    · intro hg
      obtain ⟨c', t', hg⟩ := build_yields_error hg
      exact congrArg Outcome.result (he.apply.symm.trans hg.apply)

end Description

/-- A size of 2⁶⁰ bits. -/
def vastSize : UInt64 := 1152921504606846976

/-- A description of a single register, which has this many bits. -/
def vastDescription : Description := { registers := [⟨"a", vastSize⟩] }

/-- Nothing is repeated in the description, left out or out of place, and there is no circuit. -/
theorem vastDescription_unbuilt :
    (vastDescription.registers.map Register.name).Nodup ∧ vastDescription.BitsAgree ∧
      (∀ command ∈ vastDescription.commands, vastDescription.Admits command) ∧
      (vastDescription.build.apply {}).result = .error .capacity := by
  have hbits : vastDescription.BitsAgree := by
    intro bits h
    cases h
  exact ⟨by decide, hbits, fun _ h => (List.not_mem_nil h).elim, rfl⟩

end CallCircuit
