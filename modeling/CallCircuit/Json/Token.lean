import CallCircuit.Json.Quoted

/-!
# Tokens

`Token.scan` takes a text apart into its tokens. Blanks between tokens do not matter. Where no
token begins the last one is `Token.bad`, so a text is only refused by what uses its tokens, and
no more of it is looked at than that.

* `scan_blank`, `scan_punctuation`, `scan_literal`: what the scan makes of the front of a text.
-/

namespace CallCircuit.Json

/-- A token of a JSON text. -/
inductive Token where
  | openArray | closeArray | openObject | closeObject | comma | colon
  | null
  | bool (b : Bool)
  | number (n : Number)
  | string (s : Text)
  /-- The place where no token begins. -/
  | bad
deriving DecidableEq, Repr

/-- The blanks. -/
def isBlank (c : Char) : Bool := c == ' ' || c == '\n' || c == '\t' || c == '\r'

namespace Token

/-- The tokens of one character. -/
def punctuation? : Char → Option Token
  | '[' => some .openArray
  | ']' => some .closeArray
  | '\x7b' => some .openObject
  | '\x7d' => some .closeObject
  | ',' => some .comma
  | ':' => some .colon
  | _ => none

/-- The token of a name. -/
def word? : List Char → Option (Token × List Char)
  | 'n' :: 'u' :: 'l' :: 'l' :: rest => some (.null, rest)
  | 't' :: 'r' :: 'u' :: 'e' :: rest => some (.bool true, rest)
  | 'f' :: 'a' :: 'l' :: 's' :: 'e' :: rest => some (.bool false, rest)
  | _ => none

/-- The token of a number, which reaches as far as its characters do. -/
def number? (cs : List Char) : Option (Token × List Char) :=
  match Number.ofLiteral? (cs.takeWhile Number.isPart) with
  | some n => some (.number n, cs.dropWhile Number.isPart)
  | none => none

/-- The token that begins with the character `c`, and what follows it. -/
def next? (c : Char) (rest : List Char) : Option (Token × List Char) :=
  match punctuation? c with
  | some token => some (token, rest)
  | none =>
    if c = '"' then (unquote? rest).map fun (s, rest) => (.string s, rest)
    else if Number.isPart c then number? (c :: rest)
    else word? (c :: rest)

theorem word?_length {cs rest : List Char} {token : Token} (h : word? cs = some (token, rest)) :
    rest.length < cs.length := by
  unfold word? at h
  split at h <;> cases h <;> simp <;> omega

theorem next?_length {c : Char} {cs rest : List Char} {token : Token}
    (h : next? c cs = some (token, rest)) : rest.length ≤ cs.length := by
  unfold next? at h
  split at h
  · cases h; exact Nat.le_refl _
  split at h
  · obtain ⟨⟨s, r⟩, hs, h⟩ := Option.map_eq_some_iff.1 h
    cases h
    exact Nat.le_of_lt (unquote?_length hs)
  split at h
  · rename_i hc
    unfold number? at h
    split at h <;> cases h
    rw [List.dropWhile_cons_of_pos hc]
    exact (List.dropWhile_sublist _).length_le
  · exact Nat.le_of_lt_succ (word?_length h)

/-- The tokens of a text. -/
def scan (cs : List Char) : List Token :=
  match cs with
  | [] => []
  | c :: rest =>
    if isBlank c then scan rest
    else
      match h : next? c rest with
      | some (token, rest') =>
        have := next?_length h
        token :: scan rest'
      | none => [.bad]
termination_by cs.length

/-! ## The front of a text -/

theorem scan_blank {c : Char} (h : isBlank c = true) (rest : List Char) :
    scan (c :: rest) = scan rest := by
  rw [scan, if_pos h]

theorem scan_next {c : Char} {rest rest' : List Char} {token : Token} (hc : isBlank c = false)
    (h : next? c rest = some (token, rest')) : scan (c :: rest) = token :: scan rest' := by
  rw [scan, if_neg (by simp [hc])]
  split <;> simp_all

theorem scan_punctuation {c : Char} {token : Token} (h : punctuation? c = some token)
    (rest : List Char) : scan (c :: rest) = token :: scan rest := by
  refine scan_next ?_ (by simp [next?, h])
  unfold punctuation? at h
  split at h <;> first | rfl | cases h

@[simp] theorem scan_nil : scan [] = [] := by rw [scan]

@[simp] theorem scan_openArray (rest : List Char) : scan ('[' :: rest) = .openArray :: scan rest :=
  scan_punctuation rfl rest

@[simp] theorem scan_closeArray (rest : List Char) :
    scan (']' :: rest) = .closeArray :: scan rest :=
  scan_punctuation rfl rest

@[simp] theorem scan_openObject (rest : List Char) :
    scan ('\x7b' :: rest) = .openObject :: scan rest :=
  scan_punctuation rfl rest

@[simp] theorem scan_closeObject (rest : List Char) :
    scan ('\x7d' :: rest) = .closeObject :: scan rest :=
  scan_punctuation rfl rest

@[simp] theorem scan_comma (rest : List Char) : scan (',' :: rest) = .comma :: scan rest :=
  scan_punctuation rfl rest

@[simp] theorem scan_colon (rest : List Char) : scan (':' :: rest) = .colon :: scan rest :=
  scan_punctuation rfl rest

@[simp] theorem scan_null (rest : List Char) :
    scan ('n' :: 'u' :: 'l' :: 'l' :: rest) = .null :: scan rest :=
  scan_next rfl rfl

@[simp] theorem scan_true (rest : List Char) :
    scan ('t' :: 'r' :: 'u' :: 'e' :: rest) = .bool true :: scan rest :=
  scan_next rfl rfl

@[simp] theorem scan_false (rest : List Char) :
    scan ('f' :: 'a' :: 'l' :: 's' :: 'e' :: rest) = .bool false :: scan rest :=
  scan_next rfl rfl

/-- Whether a text does not go on with a character that a number could have. -/
def endsNumber (rest : List Char) : Bool := !rest.head?.any Number.isPart

theorem isBlank_of_isPart {c : Char} (h : Number.isPart c = true) : isBlank c = false := by
  rw [Bool.eq_false_iff]
  intro hb
  simp only [isBlank, Bool.or_eq_true, beq_iff_eq] at hb
  rcases hb with ((rfl | rfl) | rfl) | rfl <;> exact absurd h (by decide)

theorem punctuation?_of_isPart {c : Char} (h : Number.isPart c = true) : punctuation? c = none := by
  unfold punctuation?
  split <;> first | rfl | exact absurd h (by decide)

theorem takeWhile_isPart {cs rest : List Char} (h : ∀ c ∈ cs, Number.isPart c = true)
    (hr : endsNumber rest = true) :
    (cs ++ rest).takeWhile Number.isPart = cs ∧ (cs ++ rest).dropWhile Number.isPart = rest := by
  rw [List.takeWhile_append_of_pos h, List.dropWhile_append_of_pos h]
  cases rest with
  | nil => simp
  | cons c rest => simp_all [endsNumber]

/-- Whether the literal of a number is a whole token and is read back as the number. -/
def isLegible (n : Number) : Bool :=
  Number.ofLiteral? n.literal == some n && n.literal.all Number.isPart

theorem scan_literal {n : Number} (h : isLegible n = true) {rest : List Char}
    (hr : endsNumber rest = true) : scan (n.literal ++ rest) = .number n :: scan rest := by
  simp only [isLegible, Bool.and_eq_true, beq_iff_eq, List.all_eq_true] at h
  obtain ⟨hn, hp⟩ := h
  obtain ⟨c, cs, hl⟩ : ∃ c cs, n.literal = c :: cs := by
    cases hl : n.literal with
    | nil => rw [hl] at hn; cases hn
    | cons c cs => exact ⟨c, cs, rfl⟩
  obtain ⟨ht, hd⟩ := takeWhile_isPart hp hr
  have hc := hp c (by simp [hl])
  have hq : c ≠ '"' := by rintro rfl; exact absurd hc (by decide)
  rw [hl] at ht hd ⊢
  refine scan_next (isBlank_of_isPart hc) ?_
  rw [List.cons_append] at ht hd
  simp [next?, punctuation?_of_isPart hc, hq, hc, number?, ht, hd, ← hl, hn]

theorem isLegible_integer (negative : Bool) (n : Nat) :
    isLegible (.integer negative n) = true := by
  rw [isLegible, Number.ofLiteral?_integer, beq_self_eq_true, Bool.true_and, List.all_eq_true,
    Number.literal_integer]
  intro c h
  rcases List.mem_append.1 h with h | h
  · cases negative <;> simp_all [Number.isPart]
  · simp [Number.isPart, Number.isDigit_of_mem_toDigits n c h]

end Token

end CallCircuit.Json
