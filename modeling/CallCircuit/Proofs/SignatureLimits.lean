import CallCircuit.Proofs.Checking

/-!
# How many parameters a signature can have

The reader refuses types with more than `maxParams` parameters, so the functions of a module have no
more than these, and counts of parameters are far within the range of a machine word.

* `Reader.Gives`: what a reader takes off the front of bytes, put together as readers are;
* `Payload.limited_of_ofFile?`: the types in the payloads of a file;
* `Handle.Reads.params_le`: the signatures that indices of a module lead to.
-/

namespace CallCircuit.Wasm

namespace Reader

variable {α β : Type} {item : Reader α} {f : α → Reader β} {bytes rest : Bytes} {p : α → Prop}

theorem bind_eq_some {b : β} :
    (item >>= f) bytes = some (b, rest) ↔
      ∃ a mid, item bytes = some (a, mid) ∧ f a mid = some (b, rest) := by
  show (item bytes).bind (fun x => f x.1 x.2) = some (b, rest) ↔ _
  rw [Option.bind_eq_some_iff]
  exact ⟨fun ⟨⟨a, mid⟩, h⟩ => ⟨a, mid, h⟩, fun ⟨a, mid, h⟩ => ⟨(a, mid), h⟩⟩

/-- Whatever the reader takes off the front of bytes satisfies `p`. -/
def Gives (item : Reader α) (p : α → Prop) : Prop :=
  ∀ bytes a rest, item bytes = some (a, rest) → p a

theorem Gives.bind {q : β → Prop} (hi : item.Gives p) (hf : ∀ a, p a → (f a).Gives q) :
    (item >>= f).Gives q := by
  intro bytes b rest h
  obtain ⟨a, mid, ha, hb⟩ := bind_eq_some.1 h
  exact hf a (hi bytes a mid ha) mid b rest hb

theorem Gives.pure {a : α} (h : p a) : (pure a : Reader α).Gives p := by
  intro bytes a' rest he
  cases he
  exact h

theorem Gives.any (item : Reader α) : item.Gives fun _ => True := fun _ _ _ _ => trivial

theorem Gives.whole {a : α} (hi : item.Gives p) (h : item.whole bytes = some a) : p a := by
  unfold Reader.whole at h
  split at h
  · rename_i hr
    cases h
    exact hi bytes _ _ hr
  · cases h

theorem gives_failure : (failure : Reader α).Gives p := fun _ _ _ => nofun

theorem gives_require (condition : Bool) : (require condition).Gives fun _ => condition = true := by
  intro bytes _ rest h
  cases condition with
  | true => rfl
  | false => cases h

theorem gives_times (hi : item.Gives p) (count : Nat) :
    (times count item).Gives fun l => l.length = count ∧ ∀ a ∈ l, p a := by
  induction count with
  | zero => exact .pure ⟨rfl, nofun⟩
  | succ count ih =>
    refine hi.bind fun a ha => ih.bind fun l hl => .pure ⟨?_, ?_⟩
    · rw [List.length_cons, hl.1]
    · exact List.forall_mem_cons.2 ⟨ha, hl.2⟩

theorem gives_vector (hi : item.Gives p) : (vector item).Gives fun l => ∀ a ∈ l, p a :=
  (Gives.any _).bind fun count _ bytes l rest h => (gives_times hi count bytes l rest h).2

theorem gives_boundedVector (limit : Nat) (item : Reader α) :
    (boundedVector limit item).Gives fun l => l.length ≤ limit := by
  refine (Gives.any _).bind fun count _ => (gives_require _).bind fun _ hc bytes l rest h => ?_
  rw [(gives_times (Gives.any item) count bytes l rest h).1]
  exact of_decide_eq_true hc

/-- The type, if it is a function type, has no more parameters than the reader takes. -/
def Limited (type : Option Signature) : Prop :=
  ∀ s, type = some s → s.params.length ≤ maxParams

theorem gives_compositeType (code : UInt8) : (compositeType code).Gives Limited := by
  unfold compositeType
  split
  · refine (gives_boundedVector maxParams _).bind fun params hp => (Gives.any _).bind fun _ _ => ?_
    refine .pure fun s hs => ?_
    cases hs
    exact hp
  · exact (Gives.any _).bind fun _ _ => .pure nofun
  · exact (Gives.any _).bind fun _ _ => .pure nofun
  · exact gives_failure

theorem gives_typeEntry : typeEntry.Gives Limited := by
  refine (Gives.any _).bind fun code _ => ?_
  split
  · exact (Gives.any _).bind fun _ _ => (Gives.any _).bind fun code _ => gives_compositeType code
  · exact gives_compositeType code

end Reader

namespace Payload

/-- The function types of the payload have no more parameters than the reader takes. -/
def Limited : Payload → Prop
  | .types entries => ∀ type ∈ entries, Reader.Limited type
  | _ => True

variable {format : Format} {id room : Nat} {bytes contents : Bytes} {payload : Payload}
  {payloads : List Payload}

theorem limited_of_ofSection? (h : ofSection? format id contents = some payload) :
    payload.Limited := by
  unfold ofSection? at h
  -- only a section of types has types, and one of an unknown kind is not read at all
  split at h
  case h_2 =>
    obtain ⟨entries, he, rfl⟩ := Option.map_eq_some_iff.1 h
    exact (Reader.gives_vector Reader.gives_typeEntry).whole he
  case h_24 =>
    cases h
    exact trivial
  all_goals
    obtain ⟨_, -, rfl⟩ := Option.map_eq_some_iff.1 h
    exact trivial

/-- All payloads of a sequence of sections come from sections, also from those of modules inside. -/
theorem exists_section_of_mem (h : ofSections? format room bytes = some payloads)
    (hm : payload ∈ payloads) :
    ∃ format id contents, ofSection? format id contents = some payload := by
  fun_induction ofSections? format room bytes generalizing payloads with
  | case1 =>
    cases h
    cases hm
  | case2 | case3 => cases h
  | case4 =>
    rename_i nested _ tooLong
    dsimp only at h
    rw [if_pos nested, if_pos tooLong] at h
    cases h
  | case5 =>
    rename_i nested headless _ fits
    dsimp only at h
    rw [if_pos nested, if_neg fits] at h
    split at h
    · cases h
    · rename_i header
      cases headless.symm.trans header
  | case6 =>
    rename_i nested inner sections header _ _ fits ihInner ihRest
    dsimp only at h
    rw [if_pos nested, if_neg fits] at h
    split at h
    · cases h
    · rename_i header'
      cases header.symm.trans header'
      obtain ⟨first, hfirst, h⟩ := Option.bind_eq_some_iff.1 h
      obtain ⟨others, hothers, h⟩ := Option.bind_eq_some_iff.1 h
      cases h
      rcases List.mem_append.1 hm with hm | hm
      · exact ihInner hfirst hm
      · exact ihRest hothers hm
  | case7 =>
    rename_i plain tooLong
    dsimp only at h
    rw [if_neg plain, if_pos tooLong] at h
    cases h
  | case8 =>
    rename_i plain fits _ ihRest
    dsimp only at h
    rw [if_neg plain, if_neg fits] at h
    obtain ⟨first, hfirst, h⟩ := Option.bind_eq_some_iff.1 h
    obtain ⟨others, hothers, h⟩ := Option.bind_eq_some_iff.1 h
    cases h
    rcases List.mem_cons.1 hm with rfl | hm
    · exact ⟨_, _, _, hfirst⟩
    · exact ihRest hothers hm

/-- The signatures of a file have no more parameters than the reader takes. -/
theorem limited_of_ofFile? (h : ofFile? bytes = some payloads) :
    ∀ payload ∈ payloads, payload.Limited := by
  intro payload hm
  obtain ⟨⟨format, sections⟩, -, hs⟩ := Option.bind_eq_some_iff.1 h
  obtain ⟨_, _, _, hp⟩ := exists_section_of_mem hs hm
  exact limited_of_ofSection? hp

end Payload

theorem IndexSpaces.Accumulates.limited {payloads : List Payload} {m : IndexSpaces}
    (h : Accumulates payloads m) (hl : ∀ payload ∈ payloads, payload.Limited) :
    ∀ type ∈ m.types, Reader.Limited type := by
  rw [accumulates_iff] at h
  subst h
  intro type hm
  obtain ⟨payload, hp, ht⟩ := List.mem_flatMap.1 hm
  cases payload with
  | types entries => exact hl _ hp type ht
  | _ => cases ht

theorem Handle.Reads.params_le {h : Handle} {m : IndexSpaces} {index : UInt32} {s : Signature}
    (hr : h.Reads m) (hs : m.Resolves index s) : s.params.length ≤ Reader.maxParams := by
  obtain ⟨payloads, hp, ha⟩ := hr
  obtain ⟨typeIndex, -, ht⟩ := hs
  exact ha.limited (Payload.limited_of_ofFile? hp) _ (List.mem_of_getElem? ht) s rfl

end CallCircuit.Wasm
