import CallCircuit.Proofs.Settings

/-!
# Placing a call

What `Placement.verdict` accepts and refuses, and why the command that is placed fits the circuit
that it is placed in.

* `slotsNeeded_eq`: a call needs one slot more than the greatest index, unless that is no word;
* `WidthsOf.totalWidth_eq`: registers have as many bits as widths of their sizes add up to;
* `verdict_placement`: the stages of placing a call;
* `Placement.command_fits`: what has been accepted fits, although `Circuit.checkCommand` is not
  asked.
-/

namespace CallCircuit

/-! ## The size of the state register -/

/-- The least number of slots that is at least `least` and covers all of these. -/
def slotBound (least : Nat) (slots : List Slot) : Nat :=
  (slots.map (·.index.toNat + 1)).foldl max least

theorem slotBound_le_iff {least limit : Nat} {slots : List Slot} :
    slotBound least slots ≤ limit ↔ least ≤ limit ∧ ∀ s ∈ slots, s.index.toNat < limit := by
  unfold slotBound
  induction slots generalizing least with
  | nil => simp
  | cons s slots ih =>
    rw [List.map_cons, List.foldl_cons, ih, Nat.max_le, and_assoc, List.forall_mem_cons,
      Nat.succ_le_iff]

theorem least_le_slotBound (least : Nat) (slots : List Slot) : least ≤ slotBound least slots :=
  (slotBound_le_iff.1 (Nat.le_refl _)).1

theorem index_lt_slotBound {least : Nat} {slots : List Slot} {s : Slot} (h : s ∈ slots) :
    s.index.toNat < slotBound least slots :=
  (slotBound_le_iff.1 (Nat.le_refl _)).2 s h

theorem slotBound_eq_max (least : Nat) (slots : List Slot) :
    slotBound least slots = max least (slotBound 0 slots) := by
  refine Nat.le_antisymm ?_ (Nat.max_le.2 ⟨least_le_slotBound least slots, ?_⟩)
  · rw [slotBound_le_iff]
    exact ⟨Nat.le_max_left _ _,
      fun s hs => Nat.lt_of_lt_of_le (index_lt_slotBound hs) (Nat.le_max_right _ _)⟩
  · rw [slotBound_le_iff]
    exact ⟨Nat.zero_le _, fun s hs => index_lt_slotBound hs⟩

example : slotBound 1 [⟨2⟩, ⟨0⟩] = 3 := rfl

/-- The slot that a state register cannot cover, since its size would be no word. -/
def lastSlot : Slot := ⟨.ofNat (UInt64.size - 1)⟩

theorem slotBound_lt_size_iff {slots : List Slot} :
    slotBound 0 slots < UInt64.size ↔ lastSlot ∉ slots := by
  have hl : lastSlot.index.toNat = UInt64.size - 1 := rfl
  rw [show slotBound 0 slots < UInt64.size ↔ slotBound 0 slots ≤ UInt64.size - 1 from by
    have : 0 < UInt64.size := by decide
    omega, slotBound_le_iff]
  constructor
  · intro h hm
    have := h.2 lastSlot hm
    omega
  · refine fun h => ⟨by decide, fun s hs => ?_⟩
    have hne : s.index.toNat ≠ lastSlot.index.toNat := fun he =>
      h ((show s = lastSlot from congrArg Slot.mk (UInt64.toNat_inj.1 he)) ▸ hs)
    have := s.index.toNat_lt_size
    omega

theorem toNat_max (a b : UInt64) : (max a b).toNat = max a.toNat b.toNat := by
  rw [show max a b = if a ≤ b then b else a from rfl, apply_ite UInt64.toNat, Nat.max_def]
  simp only [UInt64.le_iff_toNat_le]

theorem maxSlot?_cons (s : Slot) (slots : List Slot) :
    ∃ last, maxSlot? (s :: slots) = some last ∧ last.toNat + 1 = slotBound 0 (s :: slots) := by
  refine ⟨(slots.map Slot.index).foldl max s.index, rfl, ?_⟩
  unfold slotBound
  rw [List.map_cons, List.foldl_cons, Nat.zero_max, List.foldl_map, List.foldl_map]
  induction slots generalizing s with
  | nil => rfl
  | cons s' slots ih =>
    rw [List.foldl_cons, List.foldl_cons, ih ⟨max s.index s'.index⟩, toNat_max,
      Nat.add_max_add_right]

theorem slotsNeeded_eq (slots : List Slot) :
    Edit.slotsNeeded slots =
      if slotBound 0 slots < UInt64.size then .ok (.ofNat (slotBound 0 slots))
      else .error .overflow := by
  cases slots with
  | nil => rfl
  | cons s slots =>
    obtain ⟨last, hl, hb⟩ := maxSlot?_cons s slots
    have hs : Failure.ofSum (checkedAdd last 1) =
        if last.toNat + 1 < UInt64.size then .ok (.ofNat (last.toNat + 1))
        else .error .overflow := by
      rw [show (1 : UInt64) = .ofNat 1 from rfl, checkedAdd_ofNat last (by decide)]
      split <;> rfl
    rw [Edit.slotsNeeded, hl, ← hb]
    exact hs

theorem verdict_slotsNeeded (slots : List Slot) :
    Verdict (Edit.slotsNeeded slots)
      (fun n => lastSlot ∉ slots ∧ n = .ofNat (slotBound 0 slots))
      fun f => lastSlot ∈ slots ∧ .overflow = f := by
  rw [slotsNeeded_eq]
  by_cases h : lastSlot ∈ slots
  · rw [if_neg fun hs => slotBound_lt_size_iff.1 hs h]
    exact (Verdict.error _).congr (fun n => by simp [h]) fun f => by simp [h]
  · rw [if_pos (slotBound_lt_size_iff.2 h)]
    exact (Verdict.ok _).congr (fun n => by simp [h, eq_comm]) fun f => by simp [h]

theorem withSlots_slotCount (c : Circuit) (least : UInt64) :
    (c.withSlots least).slotCount.toNat = max c.slotCount.toNat least.toNat := by
  rw [Circuit.withSlots, apply_ite UInt64.toNat]
  simp only [UInt64.lt_iff_toNat_lt]
  split <;> omega

theorem withSlots_slotBound {slots : List Slot} (h : lastSlot ∉ slots) (c : Circuit) :
    c.withSlots (.ofNat (slotBound 0 slots)) =
      { c with slotCount := .ofNat (slotBound c.slotCount.toNat slots) } := by
  have hs := slotBound_lt_size_iff.2 h
  have hc : (c.withSlots (.ofNat (slotBound 0 slots))).slotCount =
      .ofNat (slotBound c.slotCount.toNat slots) := by
    rw [← UInt64.toNat_inj, withSlots_slotCount, UInt64.toNat_ofNat_of_lt' hs, ← slotBound_eq_max,
      UInt64.toNat_ofNat_of_lt']
    rw [slotBound_eq_max, Nat.max_lt]
    exact ⟨c.slotCount.toNat_lt_size, hs⟩
  rw [← hc]
  rfl

theorem slotCount_le_withSlots (c : Circuit) (least : UInt64) :
    c.slotCount ≤ (c.withSlots least).slotCount := by
  rw [UInt64.le_iff_toNat_le, withSlots_slotCount]
  exact Nat.le_max_left _ _

/-! ## Widths of registers -/

section Widths

variable {registers inputs outputs : List Register} {widths widthsIn widthsOut : List UInt32}

/-- The widths are the sizes of the registers. -/
def WidthsOf (registers : List Register) (widths : List UInt32) : Prop :=
  widths.map UInt32.toNat = registers.map (·.size.toNat)

theorem WidthsOf.length (hw : WidthsOf registers widths) : widths.length = registers.length := by
  have := congrArg List.length hw
  rwa [List.length_map, List.length_map] at this

theorem WidthsOf.recordedWidths_eq (hw : WidthsOf registers widths) :
    Edit.recordedWidths registers = widths := by
  induction registers generalizing widths with
  | nil => rw [List.length_eq_zero_iff.1 hw.length]; rfl
  | cons r registers ih =>
    cases widths with
    | nil => exact absurd hw.length nofun
    | cons width widths =>
      rw [WidthsOf, List.map_cons, List.map_cons, List.cons.injEq] at hw
      have hr : r.size.toUInt32 = width := by
        rw [← UInt32.toNat_inj, UInt64.toNat_toUInt32, ← hw.1,
          Nat.mod_eq_of_lt width.toNat_lt_size]
      exact congrArg₂ List.cons hr (ih hw.2)

theorem WidthsOf.append (hin : WidthsOf inputs widthsIn) (hout : WidthsOf outputs widthsOut) :
    WidthsOf (inputs ++ outputs) (widthsIn ++ widthsOut) := by
  rw [WidthsOf, List.map_append, List.map_append, hin, hout]

theorem widthsOf_recordedWidths (h : ∀ r ∈ registers, r.size.toNat < UInt32.size) :
    WidthsOf registers (Edit.recordedWidths registers) := by
  rw [WidthsOf, Edit.recordedWidths, List.map_map, List.map_inj_left]
  intro r hr
  exact (UInt64.toNat_toUInt32 _).trans (Nat.mod_eq_of_lt (h r hr))

theorem WidthsOf.totalWidth_eq (hw : WidthsOf registers widths) :
    totalWidth widths = (registers.flatMap Register.bits).length := by
  rw [totalWidth_eq_sum, hw, List.length_flatMap]
  simp [Register.bits]

end Widths

/-! ## The stages of placing a call -/

namespace Placement

variable {p : Placement} {c : Circuit} {terms : Option Guard × UInt64}

theorem verdict_placement (p : Placement) (c : Circuit) :
    Verdict (p.verdict c)
      (fun terms => p.options.guard = .ok terms.1 ∧
        UnitsFit (c.containsBit ·) (p.allBits terms.1) p.slots ∧
        lastSlot ∉ p.slots ∧ terms.2 = .ofNat (slotBound 0 p.slots))
      fun f => p.options.guard = .error f ∨
        ∃ guard, p.options.guard = .ok guard ∧
          ((∃ e, UnitFault (c.containsBit ·) (p.allBits guard) p.slots e ∧ .refused e = f) ∨
            UnitsFit (c.containsBit ·) (p.allBits guard) p.slots ∧
              lastSlot ∈ p.slots ∧ .overflow = f) := by
  unfold verdict
  refine ((Verdict.self p.options.guard).bind fun guard _ =>
    (verdict_checkUnits _ _).lift.bind fun _ _ => (verdict_slotsNeeded p.slots).bind fun n _ =>
      .ok (guard, n)).congr (fun terms => ?_) fun f => ?_
  · constructor
    · intro hx
      obtain ⟨guard, hg, -, hu, n, ⟨hl, rfl⟩, rfl⟩ := hx
      exact ⟨hg, hu, hl, rfl⟩
    · intro hx
      obtain ⟨hg, hu, hl, hn⟩ := hx
      exact ⟨terms.1, hg, (), hu, terms.2, ⟨hl, hn⟩, rfl⟩
  · simp only [exists_const, and_false, or_false]

/-! ## The command fits -/

/-- No list in the command that the placement comes to is longer than a word counts, and the
placement has as many bits as the widths ask for. -/
structure Sized (p : Placement) (guard : Option Guard) : Prop where
  inputs : p.inputs.length < UInt64.size
  outputs : p.outputs.length < UInt64.size
  args : (p.command guard).args.length < UInt64.size
  bits : p.bits.length = totalWidth (p.inputs ++ p.outputs)

theorem args_length (p : Placement) (guard : Option Guard) :
    (p.command guard).args.length = (p.allBits guard).length + p.slots.length := by
  simp [command]

/-- No list in the command that the placement comes to is longer than a word counts, and the widths
ask for no more bits than the placement has. -/
structure Bounded (p : Placement) (guard : Option Guard) : Prop where
  inputs : p.inputs.length < UInt64.size
  outputs : p.outputs.length < UInt64.size
  args : (p.command guard).args.length < UInt64.size
  widths : totalWidth (p.inputs ++ p.outputs) ≤ p.bits.length

theorem Sized.bounded {guard : Option Guard} (hp : p.Sized guard) : p.Bounded guard :=
  ⟨hp.inputs, hp.outputs, hp.args, Nat.le_of_eq hp.bits.symm⟩

namespace Bounded

variable {guard : Option Guard}

theorem total_lt (hp : p.Bounded guard) :
    (guard.map Guard.bits |>.getD []).length + p.bits.length + p.slots.length < UInt64.size := by
  have ha := hp.args
  rwa [args_length, allBits, List.length_append] at ha

theorem widths_toNat (hp : p.Bounded guard) :
    (UInt64.ofNat (totalWidth (p.inputs ++ p.outputs))).toNat =
      totalWidth (p.inputs ++ p.outputs) := by
  have ht := hp.total_lt
  have hw := hp.widths
  exact UInt64.toNat_ofNat_of_lt' (by omega)

theorem slots_toNat (hp : p.Bounded guard) :
    (UInt64.ofNat p.slots.length).toNat = p.slots.length := by
  have ht := hp.total_lt
  exact UInt64.toNat_ofNat_of_lt' (by omega)

theorem guard_toNat {g : Guard} (hp : p.Bounded (some g)) :
    (UInt64.ofNat g.bits.length).toNat = g.bits.length := by
  have ht : g.bits.length + p.bits.length + p.slots.length < UInt64.size := hp.total_lt
  exact UInt64.toNat_ofNat_of_lt' (by omega)

/-- The operation counts the bits of its guard and those that its widths ask for. -/
theorem bitTotal (hp : p.Bounded guard) :
    (p.operation guard).bitTotal =
      (guard.map Guard.bits |>.getD []).length + totalWidth (p.inputs ++ p.outputs) := by
  have hw := hp.widths_toNat
  cases guard with
  | none =>
    simp [operation, Operation.bitTotal, Operation.conditions, Operation.innermost,
      ModuleCall.ofWidths, hw]
  | some g =>
    simp [operation, Operation.bitTotal, Operation.conditions, Operation.innermost,
      ModuleCall.ofWidths, hw, hp.guard_toNat]

theorem slotCount (hp : p.Bounded guard) :
    (p.operation guard).slotCount.toNat = p.slots.length := by
  cases guard <;> exact hp.slots_toNat

/-- The counts of the call are those of its widths, and its guard can hold. -/
theorem consistent (hp : p.Bounded guard) (hg : p.options.guard = .ok guard) :
    (p.operation guard).Consistent := by
  have hc : (ModuleCall.ofWidths p.function p.uid p.inputs p.outputs
      (UInt64.ofNat p.slots.length)).CountsMatch :=
    ⟨UInt64.toNat_ofNat_of_lt' hp.inputs, UInt64.toNat_ofNat_of_lt' hp.outputs, hp.widths_toNat⟩
  cases guard with
  | none => exact ⟨by simp [operation, Operation.conditions], hc⟩
  | some g =>
    refine ⟨?_, hc⟩
    simpa [operation, Operation.conditions, Holds, hp.guard_toNat] using CallOptions.guard_ok hg

end Bounded

theorem layout {guard : Option Guard} (hp : p.Sized guard) :
    (p.command guard).Layout (p.allBits guard) p.slots := by
  refine ⟨rfl, ?_, hp.bounded.slotCount.symm⟩
  show _ = (p.operation guard).bitTotal
  rw [hp.bounded.bitTotal, allBits, List.length_append, hp.bits]

/-- A command that is placed fits the circuit with the slots that it needs. -/
theorem command_fits (hp : p.Sized terms.1) (h : p.verdict c = .ok terms) :
    CommandFits (c.containsBit ·) (c.withSlots terms.2).slotCount (p.command terms.1) := by
  obtain ⟨hg, hu, hlast, hn⟩ := ((verdict_placement p c).ok_iff terms).1 h
  have hl := layout hp
  refine ⟨hp.bounded.consistent hg, hl.length ▸ hp.args, _, _, hl, fun s hs => ?_, hu⟩
  have hs : s.index.toNat < terms.2.toNat := by
    rw [hn, UInt64.toNat_ofNat_of_lt' (slotBound_lt_size_iff.2 hlast)]
    exact index_lt_slotBound hs
  rw [UInt64.lt_iff_toNat_lt, withSlots_slotCount]
  omega

end Placement

end CallCircuit
