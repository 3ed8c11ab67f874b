import CallCircuit.Circuit.Check

/-!
# Verdicts of checks

What a check accepts and what it refuses, exactly. `Verdict x accepts refuses` says both at once
of a check `x`, and verdicts of the parts of a check add up to the verdict of the whole
(`Verdict.bind`).

Many checks go through a list and stop at the first element that is wrong, perhaps on account of
those before it. `Spotless bad l` says that there is no such element, and
`FirstOffender bad l before x` that `x` is the first one.

* `spotless_cons`, `firstOffender_cons`: one element further, as a check goes;
* `spotless_or_firstOffender`, `FirstOffender.not_spotless`: exactly one of the two is the case;
* `find?_eq_some_iff_firstOffender`: what a search finds is the first offender.
-/

namespace CallCircuit

/-! ## The first offender -/

section Offender

variable {α κ : Type} {bad bad' : List α → α → Prop} {l before : List α} {x y : α}

/-- No element of the list is bad, given those before it. -/
def Spotless (bad : List α → α → Prop) (l : List α) : Prop :=
  ∀ before x after, l = before ++ x :: after → ¬ bad before x

/-- `x` is the first bad element of the list, and `before` are those before it. -/
def FirstOffender (bad : List α → α → Prop) (l before : List α) (x : α) : Prop :=
  Spotless bad before ∧ bad before x ∧ ∃ after, l = before ++ x :: after

@[simp] theorem spotless_nil : Spotless bad [] := by simp [Spotless]

theorem spotless_cons :
    Spotless bad (y :: l) ↔ ¬ bad [] y ∧ Spotless (fun before => bad (y :: before)) l := by
  constructor
  · intro h
    exact ⟨h [] y l rfl, fun before x after e => h (y :: before) x after (by rw [e]; rfl)⟩
  · rintro ⟨hy, hl⟩ (_ | ⟨z, before⟩) x after e
    · cases e
      exact hy
    · cases e
      exact hl before x after rfl

@[simp] theorem not_firstOffender_nil : ¬ FirstOffender bad [] before x := by
  simp [FirstOffender]

theorem firstOffender_cons :
    FirstOffender bad (y :: l) before x ↔
      (bad [] y ∧ before = [] ∧ x = y) ∨
        (¬ bad [] y ∧ ∃ tail, before = y :: tail ∧
          FirstOffender (fun before => bad (y :: before)) l tail x) := by
  constructor
  · intro hx
    obtain ⟨hs, hb, after, e⟩ := hx
    cases before with
    | nil =>
      cases e
      exact .inl ⟨hb, rfl, rfl⟩
    | cons z tail =>
      cases e
      rw [spotless_cons] at hs
      exact .inr ⟨hs.1, tail, rfl, hs.2, hb, after, rfl⟩
  · intro hx
    rcases hx with ⟨hb, rfl, rfl⟩ | ⟨hy, tail, rfl, hs, hb, after, rfl⟩
    · exact ⟨spotless_nil, hb, l, rfl⟩
    · exact ⟨spotless_cons.2 ⟨hy, hs⟩, hb, after, rfl⟩

theorem FirstOffender.not_spotless (h : FirstOffender bad l before x) : ¬ Spotless bad l := by
  obtain ⟨-, hb, after, rfl⟩ := h
  exact fun hs => hs before x after rfl hb

theorem spotless_or_firstOffender (bad : List α → α → Prop) (l : List α) :
    Spotless bad l ∨ ∃ before x, FirstOffender bad l before x := by
  induction l generalizing bad with
  | nil => exact .inl spotless_nil
  | cons y l ih =>
    by_cases hy : bad [] y
    · exact .inr ⟨[], y, firstOffender_cons.2 (.inl ⟨hy, rfl, rfl⟩)⟩
    rcases ih fun before => bad (y :: before) with hs | ⟨tail, x, hx⟩
    · exact .inl (spotless_cons.2 ⟨hy, hs⟩)
    · exact .inr ⟨y :: tail, x, firstOffender_cons.2 (.inr ⟨hy, tail, rfl, hx⟩)⟩

theorem FirstOffender.congr (h : ∀ before x, bad before x ↔ bad' before x) :
    FirstOffender bad l before x ↔ FirstOffender bad' l before x := by
  simp only [FirstOffender, Spotless, h]

/-- Where what stands before an element does not count. -/
theorem spotless_iff_forall {p : α → Prop} :
    Spotless (fun _ x => p x) l ↔ ∀ x ∈ l, ¬ p x := by
  induction l with
  | nil => simp
  | cons y l ih => simp [spotless_cons, ih]

theorem spotless_or {p q : List α → α → Prop} :
    Spotless (fun before x => p before x ∨ q before x) l ↔ Spotless p l ∧ Spotless q l := by
  simp only [Spotless, not_or]
  exact ⟨fun h => ⟨fun b x a e => (h b x a e).1, fun b x a e => (h b x a e).2⟩,
    fun h b x a e => ⟨h.1 b x a e, h.2 b x a e⟩⟩

/-- No key is that of an earlier element. -/
theorem spotless_iff_nodup_map (f : α → κ) :
    Spotless (fun before x => f x ∈ before.map f) l ↔ (l.map f).Nodup := by
  induction l with
  | nil => simp
  | cons y l ih =>
    simp only [spotless_cons, List.map_cons, List.mem_cons]
    rw [spotless_or, spotless_iff_forall, ih, List.nodup_cons, List.mem_map]
    simp

theorem spotless_iff_nodup : Spotless (fun before x => x ∈ before) l ↔ l.Nodup := by
  simpa using spotless_iff_nodup_map (l := l) id

theorem find?_eq_some_iff_firstOffender {f : α → Bool} :
    l.find? f = some x ↔ ∃ before, FirstOffender (fun _ x => f x = true) l before x := by
  simp only [List.find?_eq_some_iff_append, FirstOffender, spotless_iff_forall]
  constructor
  · intro hx
    obtain ⟨hx, before, after, rfl, hb⟩ := hx
    exact ⟨before, fun y hy => by simpa using hb y hy, hx, after, rfl⟩
  · intro hx
    obtain ⟨before, hb, hx, after, rfl⟩ := hx
    exact ⟨hx, before, after, rfl, fun y hy => by simpa using hb y hy⟩

end Offender

/-! ## Verdicts -/

section Verdict

variable {ε α β : Type} {x : Except ε α} {p p' : α → Prop} {r r' : ε → Prop}

@[simp] theorem ok_bind (a : α) (f : α → Except ε β) : Except.ok a >>= f = f a := rfl

@[simp] theorem error_bind (e : ε) (f : α → Except ε β) : Except.error e >>= f = .error e := rfl

@[simp] theorem pure_eq_ok (a : α) : (pure a : Except ε α) = .ok a := rfl

@[simp] theorem lift_ok (a : α) : Failure.lift (.ok a) = .ok a := rfl

@[simp] theorem lift_error (e : CircuitError) :
    Failure.lift (.error e : Except CircuitError α) = .error (.refused e) := rfl

@[simp] theorem lift_eq_ok_iff {x : Except CircuitError α} {a : α} :
    Failure.lift x = .ok a ↔ x = .ok a := by cases x <;> simp [Failure.lift]

theorem exists_refused_of_lift {x : Except CircuitError α} {f : Failure}
    (h : Failure.lift x = .error f) : ∃ e, f = .refused e := by
  cases x with
  | ok a => cases h
  | error e => exact ⟨e, (Except.error.inj h).symm⟩

/-- What a check accepts, with the value that it gives, and what it refuses, with the error. -/
structure Verdict (x : Except ε α) (accepts : α → Prop) (refuses : ε → Prop) : Prop where
  ok_iff : ∀ a, x = .ok a ↔ accepts a
  error_iff : ∀ e, x = .error e ↔ refuses e

namespace Verdict

theorem congr (h : Verdict x p r) (hp : ∀ a, p a ↔ p' a) (hr : ∀ e, r e ↔ r' e) :
    Verdict x p' r' :=
  ⟨fun a => (h.ok_iff a).trans (hp a), fun e => (h.error_iff e).trans (hr e)⟩

theorem ok (a : α) : Verdict (.ok a : Except ε α) (a = ·) fun _ => False :=
  ⟨fun _ => by simp, fun _ => by simp⟩

theorem error (e : ε) : Verdict (.error e : Except ε α) (fun _ => False) (e = ·) :=
  ⟨fun _ => by simp, fun _ => by simp⟩

theorem self (x : Except ε α) : Verdict x (x = .ok ·) (x = .error ·) :=
  ⟨fun _ => .rfl, fun _ => .rfl⟩

/-- A check is determined by its verdict. -/
theorem eq {y : Except ε α} (hx : Verdict x p r) (hy : Verdict y p r) : x = y := by
  cases y with
  | ok a => exact (hx.ok_iff a).2 ((hy.ok_iff a).1 rfl)
  | error e => exact (hx.error_iff e).2 ((hy.error_iff e).1 rfl)

/-- A check after a check. -/
theorem bind {f : α → Except ε β} {q : α → β → Prop} {s : α → ε → Prop} (hx : Verdict x p r)
    (hf : ∀ a, p a → Verdict (f a) (q a) (s a)) :
    Verdict (x >>= f) (fun b => ∃ a, p a ∧ q a b) fun e => r e ∨ ∃ a, p a ∧ s a e := by
  cases x with
  | ok a =>
    have hp : ∀ a', p a' ↔ a = a' := fun a' => by rw [← hx.ok_iff, Except.ok.injEq]
    have hr : ∀ e, ¬ r e := fun e => by rw [← hx.error_iff]; simp
    refine (hf a ((hp a).2 rfl)).congr (fun b => ?_) fun e => ?_
    · simp [hp]
    · simp [hp, hr]
  | error e =>
    have hp : ∀ a, ¬ p a := fun a => by rw [← hx.ok_iff]; simp
    refine (Verdict.error e).congr (fun b => ?_) fun e' => ?_
    · simp [hp]
    · rw [← hx.error_iff, Except.error.injEq]
      simp [hp]

/-- A condition and its refusal, ahead of another check. -/
theorem ite {c : Prop} [Decidable c] {e : ε} (hx : ¬ c → Verdict x p r) :
    Verdict (if c then .error e else x) (fun a => ¬ c ∧ p a) fun e' => c ∧ e = e' ∨ ¬ c ∧ r e' := by
  by_cases hc : c
  · simpa [hc] using Verdict.error (α := α) e
  · simpa [hc] using hx hc

/-- A check whose refusals are failures. -/
theorem lift {x : Except CircuitError α} {r : CircuitError → Prop} (h : Verdict x p r) :
    Verdict (Failure.lift x) p fun f => ∃ e, r e ∧ .refused e = f := by
  cases x with
  | ok a => exact ⟨fun b => by simp [Failure.lift, ← h.ok_iff], fun f => by
      simp [Failure.lift, ← h.error_iff]⟩
  | error e => exact ⟨fun b => by simp [Failure.lift, ← h.ok_iff], fun f => by
      simp [Failure.lift, ← h.error_iff]⟩

end Verdict

theorem bind_eq_ok_iff {f : α → Except ε β} {b : β} :
    x >>= f = .ok b ↔ ∃ a, x = .ok a ∧ f a = .ok b :=
  ((Verdict.self x).bind fun a _ => Verdict.self (f a)).ok_iff b

/-! ## Checks that go through a list -/

section Scan

variable {γ : Type} {bad : List γ → γ → Prop} {t : γ → ε → Prop} {l : List γ} {y : γ}
  {q : α → Prop} {s : ε → Prop}

/-- The check stops at the first offender, with an error that belongs to it. -/
def Stops (bad : List γ → γ → Prop) (t : γ → ε → Prop) (l : List γ) (e : ε) : Prop :=
  ∃ before y, FirstOffender bad l before y ∧ t y e

/-- The element in front is bad. -/
theorem Verdict.scan_stop (hy : bad [] y) (h : Verdict x (fun _ => False) (t y)) :
    Verdict x (fun a => Spotless bad (y :: l) ∧ q a)
      fun e => Stops bad t (y :: l) e ∨ Spotless bad (y :: l) ∧ s e := by
  refine h.congr (fun a => by simp [spotless_cons, hy]) fun e => ?_
  simp only [Stops, spotless_cons, firstOffender_cons, hy, not_true_eq_false, false_and, or_false,
    true_and]
  constructor
  · exact fun h => ⟨[], y, ⟨rfl, rfl⟩, h⟩
  · intro hx
    obtain ⟨_, _, ⟨rfl, rfl⟩, he⟩ := hx
    exact he

/-- The element in front is not bad, and the check goes on behind it. -/
theorem Verdict.scan_step (hy : ¬ bad [] y)
    (h : Verdict x (fun a => Spotless (fun before => bad (y :: before)) l ∧ q a) fun e =>
      Stops (fun before => bad (y :: before)) t l e ∨
        Spotless (fun before => bad (y :: before)) l ∧ s e) :
    Verdict x (fun a => Spotless bad (y :: l) ∧ q a)
      fun e => Stops bad t (y :: l) e ∨ Spotless bad (y :: l) ∧ s e := by
  refine h.congr (fun a => by simp [spotless_cons, hy]) fun e => ?_
  simp only [Stops, spotless_cons, firstOffender_cons, hy, false_and, false_or, not_false_eq_true,
    true_and]
  refine or_congr_left ⟨?_, ?_⟩
  · intro hx
    obtain ⟨before, z, h, hz⟩ := hx
    exact ⟨y :: before, z, ⟨before, rfl, h⟩, hz⟩
  · intro hx
    obtain ⟨_, z, ⟨before, rfl, h⟩, hz⟩ := hx
    exact ⟨before, z, h, hz⟩

/-- A check that refuses what a search finds and goes on when it finds nothing. -/
theorem Verdict.find {p : α → Prop} {r : ε → Prop} (wrong : γ → Prop) (error : γ → ε)
    {f : γ → Bool} (hf : ∀ y, f y = true ↔ wrong y)
    (hsome : ∀ y, l.find? f = some y → x = .error (error y))
    (hnone : l.find? f = none → Verdict x p r) :
    Verdict x (fun a => (∀ y ∈ l, ¬ wrong y) ∧ p a) fun e =>
      Stops (fun _ => wrong) (fun y e => error y = e) l e ∨ (∀ y ∈ l, ¬ wrong y) ∧ r e := by
  have first (before : List γ) (y : γ) :
      FirstOffender (fun _ y => f y = true) l before y ↔
        FirstOffender (fun _ => wrong) l before y :=
    FirstOffender.congr fun _ => hf
  cases hl : l.find? f with
  | none =>
    have hs : ∀ y ∈ l, ¬ wrong y := fun y hy => by
      rw [← hf]
      exact List.find?_eq_none.1 hl y hy
    have hn (e : ε) : ¬ Stops (fun _ => wrong) (fun y e => error y = e) l e :=
      fun ⟨_, _, h, _⟩ => h.not_spotless (spotless_iff_forall.2 hs)
    exact (hnone hl).congr (fun _ => (and_iff_right hs).symm)
      fun e => by rw [and_iff_right hs, or_iff_right (hn e)]
  | some y =>
    obtain ⟨before, hy⟩ := find?_eq_some_iff_firstOffender.1 hl
    rw [first] at hy
    have hs : ¬ ∀ y ∈ l, ¬ wrong y := fun h => hy.not_spotless (spotless_iff_forall.2 h)
    rw [hsome y hl]
    refine (Verdict.error _).congr (fun _ => by simp only [hs, false_and]) fun e => ?_
    simp only [hs, false_and, or_false]
    constructor
    · rintro rfl
      exact ⟨before, y, hy, rfl⟩
    · intro hx
      obtain ⟨before', y', h, rfl⟩ := hx
      have := find?_eq_some_iff_firstOffender.2 ⟨before', (first before' y').2 h⟩
      rw [Option.some.inj (hl.symm.trans this)]

end Scan

end Verdict

end CallCircuit
