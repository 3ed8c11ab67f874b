import Mathlib.Data.List.Chain
import CallCircuit.Json.Spelling
import CallCircuit.Json.Writer

/-!
# Texts that spell tokens

The ways to write a token: each character of a string literal as itself or by any of its escapes,
each integer by its digits, and blanks anywhere between tokens.

* `LiteralBody.unquote?`: a string literal is read as its text, whichever escapes are in it;
* `Token.Written.scan`: so the scan finds the tokens that a text spells;
* `read?_of_written`: and the value that they are the tokens of;
* `written_write`, `read?_write`: every layout is a way to write a value, so that it is read back.
-/

namespace CallCircuit.Json

/-! ## String literals -/

/-- A hexadecimal digit, of either case. -/
def IsHexDigit (n : Nat) (c : Char) : Prop :=
  n < 16 ∧ (c = Nat.digitChar n ∨ c = (Nat.digitChar n).toUpper)

/-- The escapes of a UTF-16 unit. -/
inductive UnitEscape (n : Nat) : List Char → Prop where
  | digits {a b c d : Char} (ha : IsHexDigit (n / 4096) a) (hb : IsHexDigit (n / 256 % 16) b)
      (hc : IsHexDigit (n / 16 % 16) c) (hd : IsHexDigit (n % 16) d) :
      UnitEscape n ['\\', 'u', a, b, c, d]

/-- The ways to write a character within quotes. -/
inductive CharSpelling (c : Char) : List Char → Prop where
  | itself (hc : 0x20 ≤ c.toNat) (hq : c ≠ '"') (hb : c ≠ '\\') : CharSpelling c [c]
  | short {e : Char} (he : (e, c) ∈ shortEscapes) : CharSpelling c ['\\', e]
  | unit {cs : List Char} (h : UnitEscape c.toNat cs) : CharSpelling c cs
  | pair {leading trailing : List Char} (hc : 0x10000 ≤ c.toNat)
      (hl : UnitEscape (0xd800 + (c.toNat - 0x10000) / 0x400) leading)
      (ht : UnitEscape (0xdc00 + (c.toNat - 0x10000) % 0x400) trailing) :
      CharSpelling c (leading ++ trailing)

/-- The ways to write characters between two quotes. -/
inductive LiteralBody : List Char → List Char → Prop where
  | nil : LiteralBody [] []
  | cons {c : Char} {text spelling body : List Char} (hc : CharSpelling c spelling)
      (h : LiteralBody text body) : LiteralBody (c :: text) (spelling ++ body)

theorem IsHexDigit.hexDigit? {n : Nat} {c : Char} (h : IsHexDigit n c) :
    hexDigit? c = some n := by
  obtain ⟨hn, rfl | rfl⟩ := h
  · have : ∀ n < 16, Json.hexDigit? (Nat.digitChar n) = some n := by decide
    exact this n hn
  · have : ∀ n < 16, Json.hexDigit? (Nat.digitChar n).toUpper = some n := by decide
    exact this n hn

theorem UnitEscape.pieces? {n : Nat} {cs rest more : List Char} {pieces : List Piece}
    (h : UnitEscape n cs) (hr : Json.pieces? rest = some (pieces, more)) :
    Json.pieces? (cs ++ rest) = some (.unit n :: pieces, more) := by
  obtain ⟨ha, hb, hc, hd⟩ := h
  have hn : (((n / 4096) * 16 + n / 256 % 16) * 16 + n / 16 % 16) * 16 + n % 16 = n := by omega
  simp [Json.pieces?, hexUnit?, ha.hexDigit?, hb.hexDigit?, hc.hexDigit?, hd.hexDigit?, hr, hn]

theorem toNat_valid (c : Char) : c.toNat < 0xd800 ∨ 0xdfff < c.toNat ∧ c.toNat < 0x110000 :=
  c.valid

theorem not_surrogate (c : Char) : isLeading c.toNat = false ∧ isTrailing c.toNat = false := by
  have hc := toNat_valid c
  simp only [isLeading, isTrailing, Bool.and_eq_false_iff, decide_eq_false_iff_not]
  omega

/-- A character beyond 16 bits has a surrogate pair. -/
theorem joinPieces_pair {c : Char} (h : 0x10000 ≤ c.toNat) (pieces : List Piece) :
    joinPieces none (.unit (0xd800 + (c.toNat - 0x10000) / 0x400) ::
      .unit (0xdc00 + (c.toNat - 0x10000) % 0x400) :: pieces) =
      (joinPieces none pieces).map (c :: ·) := by
  have hc := toNat_valid c
  have hl : isLeading (0xd800 + (c.toNat - 0x10000) / 0x400) = true := by
    simp only [isLeading, Bool.and_eq_true, decide_eq_true_eq]
    omega
  have ht : isTrailing (0xdc00 + (c.toNat - 0x10000) % 0x400) = true := by
    simp only [isTrailing, Bool.and_eq_true, decide_eq_true_eq]
    omega
  have hn : 0x10000 + (0xd800 + (c.toNat - 0x10000) / 0x400 - 0xd800) * 0x400 +
      (0xdc00 + (c.toNat - 0x10000) % 0x400 - 0xdc00) = c.toNat := by
    omega
  rw [joinPieces, if_pos hl, joinPieces, if_pos ht, ofPair, hn, Char.ofNat_toNat]

theorem lookup_shortEscapes {e c : Char} (h : (e, c) ∈ shortEscapes) :
    shortEscapes.lookup e = some c ∧ e ≠ 'u' := by
  simp only [shortEscapes, List.mem_cons, Prod.mk.injEq, List.not_mem_nil, or_false] at h
  rcases h with ⟨rfl, rfl⟩ | ⟨rfl, rfl⟩ | ⟨rfl, rfl⟩ | ⟨rfl, rfl⟩ | ⟨rfl, rfl⟩ | ⟨rfl, rfl⟩ |
    ⟨rfl, rfl⟩ | ⟨rfl, rfl⟩ <;> decide

/-- A character is taken apart into pieces that are joined to the character again. -/
theorem CharSpelling.pieces? {c : Char} {cs : List Char} (h : CharSpelling c cs) :
    ∃ front : List Piece,
      (∀ {rest more : List Char} {pieces : List Piece}, Json.pieces? rest = some (pieces, more) →
        Json.pieces? (cs ++ rest) = some (front ++ pieces, more)) ∧
      ∀ pieces, joinPieces none (front ++ pieces) = (joinPieces none pieces).map (c :: ·) := by
  cases h with
  | itself hc hq hb =>
    refine ⟨[.char c], fun {rest _ _} hr => ?_, fun _ => rfl⟩
    show Json.pieces? (c :: rest) = _
    rw [Json.pieces?.eq_5 _ _ hq (fun _ _ _ _ _ h => absurd h hb) (fun _ _ h => absurd h hb),
      if_neg (Nat.not_lt.2 hc), hr]
    rfl
  | @short e he =>
    obtain ⟨hl, hu⟩ := lookup_shortEscapes he
    refine ⟨[.char c], fun {rest _ _} hr => ?_, fun _ => rfl⟩
    show Json.pieces? ('\\' :: e :: rest) = _
    rw [Json.pieces?.eq_4 _ _ fun _ _ _ _ _ h => absurd h hu, hl, hr]
    rfl
  | unit h =>
    refine ⟨[.unit c.toNat], h.pieces?, fun pieces => ?_⟩
    obtain ⟨hl, ht⟩ := not_surrogate c
    simp [joinPieces, hl, ht]
  | pair hc hl ht =>
    refine ⟨[.unit (0xd800 + (c.toNat - 0x10000) / 0x400),
      .unit (0xdc00 + (c.toNat - 0x10000) % 0x400)], fun hr => ?_, joinPieces_pair hc⟩
    rw [List.append_assoc]
    exact hl.pieces? (ht.pieces? hr)

/-- The text of a literal is read up to the closing quote. -/
theorem LiteralBody.unquote? {text body : List Char} (h : LiteralBody text body)
    (rest : List Char) :
    Json.unquote? (body ++ '"' :: rest) = some (some (String.ofList text), rest) := by
  suffices ∃ pieces, pieces? (body ++ '"' :: rest) = some (pieces, rest) ∧
      joinPieces none pieces = some text by
    obtain ⟨pieces, hp, hj⟩ := this
    simp [Json.unquote?, hp, hj]
  -- pieces of different characters never pair up, so each character joins up on its own
  induction h with
  | nil => exact ⟨[], rfl, rfl⟩
  | @cons c text spelling body hc h ih =>
    obtain ⟨pieces, hp, hj⟩ := ih
    obtain ⟨front, hfront, hjoin⟩ := hc.pieces?
    refine ⟨front ++ pieces, ?_, ?_⟩
    · rw [List.append_assoc]
      exact hfront hp
    · rw [hjoin, hj]
      rfl

/-- Escapes may have digits of either case, and a surrogate pair is one character. -/
example : unquote? "\\/\\u00E9\\uD83d\\ude00\" ".toList = some (some "/é😀", [' ']) := by
  decide

theorem mem_shortEscapes_of_escapeOf? {c e : Char} (h : escapeOf? c = some e) :
    (e, c) ∈ shortEscapes := by
  unfold escapeOf? at h
  split at h <;> cases h <;> decide

theorem escapeOf?_eq_none {c : Char} (h : escapeOf? c = none) : c ≠ '"' ∧ c ≠ '\\' := by
  constructor <;> rintro rfl <;> simp [escapeOf?] at h

/-- A character is written in one of the ways to write it. -/
theorem charSpelling_quoteChar (c : Char) : CharSpelling c (quoteChar c) := by
  unfold quoteChar
  split
  · exact .short (mem_shortEscapes_of_escapeOf? ‹_›)
  · obtain ⟨hq, hb⟩ := escapeOf?_eq_none ‹_›
    split
    · rename_i hc
      refine .unit (.digits ⟨by omega, .inl ?_⟩ ⟨by omega, .inl ?_⟩ ⟨by omega, .inl ?_⟩
        ⟨by omega, .inl rfl⟩)
      · rw [show c.toNat / 4096 = 0 by omega]
        rfl
      · rw [show c.toNat / 256 % 16 = 0 by omega]
        rfl
      · rw [show c.toNat / 16 % 16 = c.toNat / 16 by omega]
    · exact .itself (by omega) hq hb

theorem literalBody_flatMap_quoteChar (text : List Char) :
    LiteralBody text (text.flatMap quoteChar) := by
  induction text with
  | nil => exact .nil
  | cons c text ih => exact .cons (charSpelling_quoteChar c) ih

/-! ## Tokens -/

namespace Token

/-- The ways to write a token, of which numbers have integers only. -/
inductive Lexeme : Token → List Char → Prop where
  | openArray : Lexeme .openArray ['[']
  | closeArray : Lexeme .closeArray [']']
  | openObject : Lexeme .openObject ['\x7b']
  | closeObject : Lexeme .closeObject ['\x7d']
  | comma : Lexeme .comma [',']
  | colon : Lexeme .colon [':']
  | nullWord : Lexeme .null ['n', 'u', 'l', 'l']
  | trueWord : Lexeme (.bool true) ['t', 'r', 'u', 'e']
  | falseWord : Lexeme (.bool false) ['f', 'a', 'l', 's', 'e']
  | integer (negative : Bool) (n : Nat) :
      Lexeme (.number (.integer negative n)) ((if negative then ['-'] else []) ++ Nat.toDigits 10 n)
  | string {s : String} {body : List Char} (h : LiteralBody s.toList body) :
      Lexeme (.string (some s)) ('"' :: body ++ ['"'])

/-- The texts of these tokens, with blanks anywhere between them. -/
inductive Written : List Token → List Char → Prop where
  | nil : Written [] []
  | blank {c : Char} {tokens : List Token} {cs : List Char} (hc : c ∈ [' ', '\n', '\t', '\r'])
      (h : Written tokens cs) : Written tokens (c :: cs)
  | token {token : Token} {tokens : List Token} {lexeme cs : List Char}
      (hl : Lexeme token lexeme) (h : Written tokens cs) :
      Written (token :: tokens) (lexeme ++ cs)

/-- Whether a token is a number. -/
def isNumber : Token → Bool
  | .number _ => true
  | _ => false

/-- No two numbers stand side by side, where they would run into one. -/
def Separated (tokens : List Token) : Prop :=
  tokens.IsChain fun a b => a.isNumber = false ∨ b.isNumber = false

theorem isBlank_iff {c : Char} : isBlank c = true ↔ c ∈ [' ', '\n', '\t', '\r'] := by
  simp [isBlank, or_assoc]

theorem Lexeme.quote (s : String) : Lexeme (.string (some s)) (Json.quote (some s)) :=
  .string (literalBody_flatMap_quoteChar s.toList)

theorem Lexeme.scan {token : Token} {lexeme rest : List Char} (h : Lexeme token lexeme)
    (hr : token.isNumber = true → endsNumber rest = true) :
    Token.scan (lexeme ++ rest) = token :: Token.scan rest := by
  cases h with
  | integer negative n =>
    rw [← Number.literal_integer]
    exact scan_literal (isLegible_integer negative n) (hr rfl)
  | @string s body h =>
    have hu := h.unquote? rest
    rw [String.ofList_toList] at hu
    show Token.scan ('"' :: (body ++ ['"'] ++ rest)) = _
    rw [List.append_assoc]
    exact scan_next rfl (by simp [next?, punctuation?, hu])
  | _ => simp

theorem Lexeme.endsNumber {token : Token} {lexeme : List Char} (h : Lexeme token lexeme)
    (ht : token.isNumber = false) (rest : List Char) : endsNumber (lexeme ++ rest) = true := by
  cases h with
  | integer => cases ht
  | _ => rfl

theorem Written.endsNumber {tokens : List Token} {cs : List Char} (h : Written tokens cs)
    (ht : ∀ token ∈ tokens.head?, token.isNumber = false) : Token.endsNumber cs = true := by
  cases h with
  | nil => rfl
  | blank hc h =>
    simp only [List.mem_cons, List.not_mem_nil, or_false] at hc
    rcases hc with rfl | rfl | rfl | rfl <;> rfl
  | token hl h => exact hl.endsNumber (ht _ rfl) _

/-- The scan of a text finds the tokens that are written in it. -/
theorem Written.scan {tokens : List Token} {cs : List Char} (h : Written tokens cs)
    (hs : Separated tokens) : Token.scan cs = tokens := by
  induction h with
  | nil => exact scan_nil
  | blank hc h ih => rw [scan_blank (isBlank_iff.2 hc), ih hs]
  | @token token tokens lexeme cs hl h ih =>
    -- a number ends where it does only if no other number follows at once
    rw [Separated, List.isChain_cons] at hs
    rw [hl.scan fun ht => h.endsNumber fun next hn => ?_, ih hs.2]
    exact (hs.1 next hn).resolve_left (by simp [ht])

theorem Written.blanks {cs rest : List Char} {tokens : List Token}
    (hb : ∀ c ∈ cs, isBlank c = true) (h : Written tokens rest) : Written tokens (cs ++ rest) := by
  induction cs with
  | nil => exact h
  | cons c cs ih =>
    rw [List.forall_mem_cons] at hb
    exact .blank (isBlank_iff.1 hb.1) (ih hb.2)

theorem separated_cons {token : Token} {tokens : List Token} (h : token.isNumber = false) :
    Separated (token :: tokens) ↔ Separated tokens := by
  rw [Separated, List.isChain_cons]
  exact and_iff_right fun _ _ => .inl h

end Token

/-! ## Values -/

open Token (Separated separated_cons)

theorem head?_itemTokens (items : List Json) (rest : List Token) :
    ∀ token ∈ (itemTokens items ++ rest).head?, token.isNumber = false := by
  cases items <;> rintro _ ⟨⟩ <;> rfl

theorem head?_memberTokens (members : List (Text × Json)) (rest : List Token) :
    ∀ token ∈ (memberTokens members ++ rest).head?, token.isNumber = false := by
  cases members <;> rintro _ ⟨⟩ <;> rfl

mutual

theorem separated_tokens (j : Json) {rest : List Token} (hs : Separated rest)
    (hr : ∀ token ∈ rest.head?, token.isNumber = false) : Separated (j.tokens ++ rest) := by
  match j with
  | .null | .bool _ | .string _ => exact (separated_cons rfl).2 hs
  | .number n => exact List.isChain_cons.2 ⟨fun token ht => .inr (hr token ht), hs⟩
  | .array [] | .object [] => exact (separated_cons rfl).2 ((separated_cons rfl).2 hs)
  | .array (item :: items) =>
    rw [tokens, List.append_assoc]
    exact (separated_cons rfl).2 (separated_tokens item (separated_itemTokens items hs)
      (head?_itemTokens items rest))
  | .object ((key, value) :: members) =>
    rw [tokens, List.append_assoc]
    exact (separated_cons rfl).2 ((separated_cons rfl).2 ((separated_cons rfl).2
      (separated_tokens value (separated_memberTokens members hs)
        (head?_memberTokens members rest))))

theorem separated_itemTokens (items : List Json) {rest : List Token} (hs : Separated rest) :
    Separated (itemTokens items ++ rest) := by
  match items with
  | [] => exact (separated_cons rfl).2 hs
  | item :: items =>
    rw [itemTokens, List.append_assoc]
    exact (separated_cons rfl).2 (separated_tokens item (separated_itemTokens items hs)
      (head?_itemTokens items rest))

theorem separated_memberTokens (members : List (Text × Json)) {rest : List Token}
    (hs : Separated rest) : Separated (memberTokens members ++ rest) := by
  match members with
  | [] => exact (separated_cons rfl).2 hs
  | (key, value) :: members =>
    rw [memberTokens, List.append_assoc]
    exact (separated_cons rfl).2 ((separated_cons rfl).2 ((separated_cons rfl).2
      (separated_tokens value (separated_memberTokens members hs)
        (head?_memberTokens members rest))))

end

/-- A text that spells the tokens of a value is read as the value. -/
theorem read?_of_written {j : Json} {s : String} (h : Token.Written j.tokens s.toList) :
    read? s = some (j, []) := by
  have hs : Separated (j.tokens ++ []) := separated_tokens j .nil nofun
  rw [List.append_nil] at hs
  rw [read?, h.scan hs, ← ofTokens?_tokens j [], List.append_nil]

/-! ## Plain values -/

/-- Whether a number is an integer with the digits of a word. -/
def Number.isPlain (n : Number) : Bool :=
  n == .integer n.negative (digits n.whole) && decide (digits n.whole < UInt64.size)

mutual

/-- Whether the strings in a value are texts and its numbers integers with the digits of words. -/
def isPlain : Json → Bool
  | .null | .bool _ => true
  | .number n => n.isPlain
  | .string s => s.isSome
  | .array items => arePlain items
  | .object members => arePlainMembers members

/-- `isPlain` for all of these. -/
def arePlain : List Json → Bool
  | [] => true
  | item :: items => item.isPlain && arePlain items

/-- `isPlain` for the keys and values of all of these. -/
def arePlainMembers : List (Text × Json) → Bool
  | [] => true
  | (key, value) :: members => key.isSome && value.isPlain && arePlainMembers members

end

open Token (Written Lexeme)

mutual

theorem written_writeAt (layout : Layout) (depth : Nat) (j : Json) (h : j.isPlain = true)
    {tokens : List Token} {rest : List Char} (hr : Written tokens rest) :
    Written (j.tokens ++ tokens) (j.writeAt layout depth ++ rest) := by
  match j with
  | .null => exact .token .nullWord hr
  | .bool true => exact .token .trueWord hr
  | .bool false => exact .token .falseWord hr
  | .number n =>
    rw [isPlain, Number.isPlain, Bool.and_eq_true, beq_iff_eq] at h
    rw [writeAt, Json.tokens, h.1, Number.literal_integer]
    exact .token (.integer _ _) hr
  | .string (some s) => exact .token (.quote s) hr
  | .array [] =>
    simp only [writeAt, Json.tokens, List.cons_append, List.nil_append]
    exact .token .openArray (.token .closeArray hr)
  | .object [] =>
    simp only [writeAt, Json.tokens, List.cons_append, List.nil_append]
    exact .token .openObject (.token .closeObject hr)
  | .array (item :: items) =>
    simp only [isPlain, arePlain, Bool.and_eq_true] at h
    simp only [writeAt, Json.tokens, List.append_assoc, List.cons_append]
    exact .token .openArray (.blanks (layout.line_blank _) (written_writeAt layout (depth + 1) item
      h.1 (written_writeItems layout depth items h.2 hr)))
  | .object ((some key, value) :: members) =>
    simp only [isPlain, arePlainMembers, Bool.and_eq_true] at h
    simp only [writeAt, Json.tokens, List.append_assoc, List.cons_append]
    exact .token .openObject (.blanks (layout.line_blank _) (.token (.quote key) (.token .colon
      (.blanks layout.gap_blank (written_writeAt layout (depth + 1) value h.1.2
        (written_writeMembers layout depth members h.2 hr))))))

theorem written_writeItems (layout : Layout) (depth : Nat) (items : List Json)
    (h : arePlain items = true) {tokens : List Token} {rest : List Char}
    (hr : Written tokens rest) :
    Written (itemTokens items ++ tokens) (writeItems layout depth items ++ rest) := by
  match items with
  | [] =>
    rw [writeItems, List.append_assoc]
    exact .blanks (layout.line_blank _) (.token .closeArray hr)
  | item :: items =>
    simp only [arePlain, Bool.and_eq_true] at h
    simp only [writeItems, itemTokens, List.append_assoc, List.cons_append]
    exact .token .comma (.blanks (layout.line_blank _) (written_writeAt layout (depth + 1) item
      h.1 (written_writeItems layout depth items h.2 hr)))

theorem written_writeMembers (layout : Layout) (depth : Nat) (members : List (Text × Json))
    (h : arePlainMembers members = true) {tokens : List Token} {rest : List Char}
    (hr : Written tokens rest) :
    Written (memberTokens members ++ tokens) (writeMembers layout depth members ++ rest) := by
  match members with
  | [] =>
    rw [writeMembers, List.append_assoc]
    exact .blanks (layout.line_blank _) (.token .closeObject hr)
  | (some key, value) :: members =>
    simp only [arePlainMembers, Bool.and_eq_true] at h
    simp only [writeMembers, memberTokens, List.append_assoc, List.cons_append]
    exact .token .comma (.blanks (layout.line_blank _) (.token (.quote key) (.token .colon
      (.blanks layout.gap_blank (written_writeAt layout (depth + 1) value h.1.2
        (written_writeMembers layout depth members h.2 hr))))))

end

/-- What a writer writes spells the tokens of the value, in every layout. -/
theorem written_write (layout : Layout) {j : Json} (h : j.isPlain = true) :
    Written j.tokens (j.write layout).toList := by
  have := written_writeAt layout 0 j h .nil
  rwa [List.append_nil, List.append_nil, ← String.toList_ofList (l := j.writeAt layout 0)] at this

theorem read?_write (layout : Layout) {j : Json} (h : j.isPlain = true) :
    read? (j.write layout) = some (j, []) :=
  read?_of_written (written_write layout h)

end CallCircuit.Json
