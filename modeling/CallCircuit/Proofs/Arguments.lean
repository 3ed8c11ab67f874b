import Mathlib.Algebra.GroupWithZero.Nat
import CallCircuit.CommandLine.Arguments
import CallCircuit.Proofs.Verdict

/-!
# What arguments hold

Arguments take room, and so do the lists that are read from them. As each value of a list has at least
a comma or the end of an argument to itself, no list is longer than the arguments are.

* `commaList?_length`: a list has a value, and not more than its text has room for;
* `Settings.Fits.set`: an option adds no more values than its own value has room for;
* `Settings.Fits.settings`: so the lists in the settings fit into the arguments;
* `call_of_parse`: what this says of the lists of a call.
-/

namespace CallCircuit.CommandLine

/-- How much room arguments take: their characters, and one more to end each of them. -/
def argumentSize (args : List String) : Nat := (args.map (·.length + 1)).sum

@[simp] theorem argumentSize_nil : argumentSize [] = 0 := rfl

@[simp] theorem argumentSize_cons (arg : String) (args : List String) :
    argumentSize (arg :: args) = arg.length + 1 + argumentSize args := by
  rw [argumentSize, List.map_cons, List.sum_cons, argumentSize]

/-! ## Lists -/

theorem length_splitAt (separator : Char) (cs : List Char) :
    0 < (splitAt separator cs).length ∧ (splitAt separator cs).length ≤ cs.length + 1 := by
  induction cs with
  | nil => exact ⟨Nat.one_pos, Nat.le_refl 1⟩
  | cons c cs ih =>
    rw [splitAt]
    split
    · exact ⟨Nat.succ_pos _, Nat.succ_le_succ ih.2⟩
    · split
      · rename_i part parts hs
        rw [hs] at ih
        exact ⟨Nat.succ_pos _, Nat.le_succ_of_le ih.2⟩
      · exact ⟨Nat.one_pos, Nat.le_add_left 1 _⟩

theorem length_of_mapM {α β : Type} {f : α → Option β} {l : List α} {l' : List β}
    (h : l.mapM f = some l') : l'.length = l.length := by
  induction l generalizing l' with
  | nil =>
    cases h
    rfl
  | cons a l ih =>
    rw [List.mapM_cons] at h
    obtain ⟨b, -, h⟩ := Option.bind_eq_some_iff.1 h
    obtain ⟨rest, hr, h⟩ := Option.bind_eq_some_iff.1 h
    cases h
    rw [List.length_cons, List.length_cons, ih hr]

theorem commaList?_length {α : Type} {item? : String → Option α} {s : String} {items : List α}
    (h : commaList? item? s = some items) : 0 < items.length ∧ items.length ≤ s.length + 1 := by
  rw [length_of_mapM h, String.length]
  exact length_splitAt ',' s.toList

/-! ## Settings -/

/-- The lists in the settings have no more values than this, taken together, and where slots are given
there is one at least. -/
structure Settings.Fits (s : Settings) (room : Nat) : Prop where
  count : s.widthsIn.length + s.widthsOut.length + (s.slots.getD []).length ≤ room
  some_slot : s.slots ≠ some []

theorem Settings.Fits.mono {s : Settings} {room room' : Nat} (hs : s.Fits room)
    (h : room ≤ room') : s.Fits room' :=
  ⟨Nat.le_trans hs.count h, hs.some_slot⟩

theorem Settings.Fits.set {s s' : Settings} {room : Nat} {value : String} {key : Key}
    (hs : s.Fits room) (h : s.set value key = some s') :
    s'.Fits (room + (value.length + 1)) := by
  obtain ⟨count, some_slot⟩ := hs
  cases key with
  | wasmFile | name | inputs | outputs | opgroup | intSize =>
    obtain ⟨_, -, h⟩ := Option.bind_eq_some_iff.1 h
    cases h
    exact ⟨Nat.le_add_right_of_le count, some_slot⟩
  | widthsIn =>
    obtain ⟨items, hi, h⟩ := Option.bind_eq_some_iff.1 h
    cases h
    have hl := (commaList?_length hi).2
    refine ⟨?_, some_slot⟩
    simp only [List.length_append]
    omega
  | widthsOut =>
    obtain ⟨items, hi, h⟩ := Option.bind_eq_some_iff.1 h
    cases h
    have hl := (commaList?_length hi).2
    refine ⟨?_, some_slot⟩
    simp only [List.length_append]
    omega
  | slots =>
    obtain ⟨items, hi, h⟩ := Option.bind_eq_some_iff.1 h
    cases h
    obtain ⟨hpos, hl⟩ := commaList?_length hi
    refine ⟨?_, fun he => ?_⟩
    · simp only [Option.getD_some, List.length_append]
      omega
    · have := congrArg List.length (Option.some.inj he)
      rw [List.length_append, List.length_nil] at this
      omega
  | noCheck =>
    rw [Settings.set] at h
    split at h
    · cases h
    · cases h
      exact ⟨Nat.le_add_right_of_le count, some_slot⟩

theorem Settings.Fits.take {s s' : Settings} {room : Nat} {value : String} {key : Key}
    (hs : s.Fits room) (h : s.take key value = .ok s') :
    s'.Fits (room + (value.length + 1)) := by
  rw [Settings.take] at h
  split at h
  · rename_i hset
    cases h
    exact hs.set hset
  · cases h

/-! ## Arguments -/

theorem length_attached {cs : List Char} {value : String} (h : attached cs = some value) :
    value.length ≤ cs.length := by
  unfold attached at h
  split at h
  · cases h
  · cases h
    rw [String.length_ofList]
    exact Nat.le_succ _
  · cases h
    exact Nat.le_of_eq String.length_ofList

theorem length_assignment {cs : List Char} {value : String} (h : (assignment cs).2 = some value) :
    value.length ≤ cs.length := by
  have hd : (cs.dropWhile (· != '=')).length ≤ cs.length :=
    (List.dropWhile_sublist _).length_le
  unfold assignment at h
  split at h
  · cases h
  · rename_i c rest hr
    cases h
    rw [hr, List.length_cons] at hd
    rw [String.length_ofList]
    omega

theorem option_ok {sub : Subcommand} {word : Word} {key : Key} {value : Option String}
    (h : sub.option word = .ok (key, value)) :
    (∃ name, word = .long name value) ∨ ∃ letter, word = .short letter value := by
  unfold Subcommand.option at h
  split at h
  · cases h
  · cases h
  · rename_i name value' _
    split at h
    · cases h
      exact .inl ⟨name, rfl⟩
    · cases h
  · rename_i letter value' _
    split at h
    · cases h
      exact .inr ⟨letter, rfl⟩
    · cases h
  · cases h

/-- A value in the same argument as its option is a part of the argument. -/
theorem length_of_option {sub : Subcommand} {arg value : String} {key : Key}
    (h : sub.option (Word.ofText arg) = .ok (key, some value)) : value.length ≤ arg.length := by
  have hw := option_ok h
  have hl : arg.length = arg.toList.length := String.length_toList.symm
  unfold Word.ofText at hw
  split at hw
  · simp at hw
  · rename_i cs _ hc
    rw [hc, List.length_cons, List.length_cons] at hl
    rcases hw with ⟨name, hw⟩ | ⟨letter, hw⟩
    · have := length_assignment (Word.long.inj hw).2
      omega
    · cases hw
  · rename_i c cs _ hc
    rw [hc, List.length_cons, List.length_cons] at hl
    rcases hw with ⟨name, hw⟩ | ⟨letter, hw⟩
    · cases hw
    · have := length_attached (Word.short.inj hw).2
      omega
  · simp at hw

theorem Settings.Fits.settings {sub : Subcommand} {s s' : Settings} {pending : Option Key}
    {args : List String} {room : Nat} (hs : s.Fits room)
    (h : sub.settings s pending args = .ok s') : s'.Fits (room + argumentSize args) := by
  induction args generalizing s pending room with
  | nil =>
    rw [Subcommand.settings] at h
    split at h
    · cases h
    · cases h
      exact hs
  | cons arg args ih =>
    rw [argumentSize_cons, ← Nat.add_assoc]
    -- what an option adds is paid for by the argument that its value stands in
    have htake {value : String} {key : Key} (hl : value.length ≤ arg.length)
        (ht : (s.take key value >>= fun s => sub.settings s none args) = .ok s') :
        s'.Fits (room + (arg.length + 1) + argumentSize args) := by
      obtain ⟨s₁, h₁, h₂⟩ := bind_eq_ok_iff.1 ht
      exact ih ((hs.take h₁).mono (by omega)) h₂
    cases pending with
    | some key =>
      by_cases hw : Word.ofText arg = .plain
      · rw [Subcommand.settings.eq_2 _ _ _ _ _ hw] at h
        exact htake (Nat.le_refl _) h
      · rw [Subcommand.settings.eq_3 _ _ _ _ _ hw] at h
        cases h
    | none =>
      by_cases hw : Word.ofText arg = .terminator
      · rw [Subcommand.settings.eq_4 _ _ _ _ hw] at h
        split at h
        · cases h
          exact hs.mono (by omega)
        · cases h
      · rw [Subcommand.settings.eq_5 _ _ _ _ hw] at h
        obtain ⟨⟨key, value⟩, ho, h⟩ := bind_eq_ok_iff.1 h
        dsimp only at h
        split at h
        · exact htake (length_of_option ho) h
        · exact ih (hs.mono (by omega)) h
        · cases h
        · exact htake (Nat.zero_le _) h

theorem settings_of_parse {args : List String} {i : Invocation} (h : parse args = .ok i) :
    ∃ (sub : Subcommand) (s : Settings), s.Fits (argumentSize args) ∧ s.invocation? sub = some i := by
  cases args with
  | nil => cases h
  | cons arg args =>
    unfold parse at h
    cases hw : Word.ofText arg with
    | plain =>
      simp only [hw] at h
      cases ht : Subcommand.ofText? arg with
      | some sub =>
        simp only [ht] at h
        obtain ⟨s, hs, h⟩ := bind_eq_ok_iff.1 h
        cases hi : s.invocation? sub with
        | some invocation =>
          rw [hi] at h
          cases h
          have hempty : Settings.Fits {} 0 := ⟨Nat.le_refl 0, nofun⟩
          refine ⟨sub, s, (hempty.settings hs).mono ?_, hi⟩
          rw [argumentSize_cons, Nat.zero_add]
          exact Nat.le_add_left _ _
        | none =>
          rw [hi] at h
          cases h
      | none =>
        simp only [ht] at h
        split at h
        · split at h
          · cases h
          · split at h <;> cases h
          · cases h
        · cases h
    | terminator =>
      simp only [hw] at h
      cases h
    | long name value =>
      simp only [hw] at h
      split at h <;> first | cases h | contradiction
    | short letter value =>
      simp only [hw] at h
      split at h <;> first | cases h | contradiction

/-- The lists of a call fit into the arguments that ask for it, and slots are given one by one. -/
theorem call_of_parse {args : List String} {i : Invocation} {name : String}
    {inputs outputs : List UInt32} {slots : Option (List UInt64)} {group : Option String}
    (h : parse args = .ok i) (hj : i.job = .call name inputs outputs slots group) :
    inputs.length + outputs.length + (slots.getD []).length ≤ argumentSize args ∧
      slots ≠ some [] := by
  obtain ⟨sub, s, ⟨count, some_slot⟩, hi⟩ := settings_of_parse h
  obtain ⟨path, -, hi⟩ := Option.bind_eq_some_iff.1 hi
  obtain ⟨job, hjob, hi⟩ := Option.bind_eq_some_iff.1 hi
  cases hi
  dsimp only at hj
  subst hj
  cases sub with
  | inspect => cases hjob
  | checkFunction =>
    obtain ⟨_, -, hjob⟩ := Option.bind_eq_some_iff.1 hjob
    obtain ⟨_, -, hjob⟩ := Option.bind_eq_some_iff.1 hjob
    obtain ⟨_, -, hjob⟩ := Option.bind_eq_some_iff.1 hjob
    cases hjob
  | call =>
    obtain ⟨_, -, hjob⟩ := Option.bind_eq_some_iff.1 hjob
    cases hjob
    exact ⟨count, some_slot⟩

end CallCircuit.CommandLine
