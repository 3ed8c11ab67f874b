/-!
# Numbers as they are written

A JSON number is kept as its parts: sign, digits before and after the point, exponent. Only a
number of digits alone stands for a natural number, so `1.0`, `1e0` and `-0` stand for none.
`Number.ofLiteral?` reads the parts off a literal, and `Number.natural` gives the parts of the
literal of a natural number.

* `ofLiteral?_integer`: the literal of an integer is read as the integer;
* `toNat?_natural`: the digits of a natural number stand for that number.
-/

namespace CallCircuit.Json

/-- The parts of a written number. -/
structure Number where
  negative : Bool := false
  /-- The digits before the point, of which there is at least one. -/
  whole : List Char
  /-- The digits after the point; without a point there are none. -/
  fraction : List Char := []
  exponent : Option Int := none
deriving DecidableEq, Repr, Inhabited

namespace Number

/-- The value of decimal digits. -/
def digits (cs : List Char) : Nat := Nat.ofDigitChars 10 cs 0

/-- The characters that literals are made of. -/
def isPart (c : Char) : Bool := c.isDigit || ['-', '+', '.', 'e', 'E'].contains c

/-- The sign in front of a number and what follows it. -/
def sign : List Char → Bool × List Char
  | '-' :: rest => (true, rest)
  | cs => (false, cs)

/-- A run of digits, of which there is at least one, and what follows it. -/
def run? (cs : List Char) : Option (List Char × List Char) :=
  match cs.takeWhile Char.isDigit with
  | [] => none
  | run => some (run, cs.dropWhile Char.isDigit)

/-- The digits before the point and what follows them. Only zero itself begins with the digit
0. -/
def whole? (cs : List Char) : Option (List Char × List Char) :=
  match run? cs with
  | some ('0' :: _ :: _, _) => none
  | other => other

/-- The digits after a point and what follows them, no digits where no point stands. -/
def fraction? : List Char → Option (List Char × List Char)
  | '.' :: rest => run? rest
  | cs => some ([], cs)

/-- The digits of an exponent, to the end of the literal. -/
def exponentDigits? (cs : List Char) : Option Nat :=
  match run? cs with
  | some (run, []) => some (digits run)
  | _ => none

/-- The number after the exponent mark, to the end of the literal. -/
def signedExponent? : List Char → Option Int
  | '-' :: rest => (exponentDigits? rest).map fun n => -n
  | '+' :: rest => (exponentDigits? rest).map fun n => n
  | cs => (exponentDigits? cs).map fun n => n

/-- The exponent to the end of the literal, if there is one. -/
def exponent? : List Char → Option (Option Int)
  | [] => some none
  | 'e' :: rest | 'E' :: rest => (signedExponent? rest).map some
  | _ => none

/-- The parts of a literal. -/
def ofLiteral? (cs : List Char) : Option Number := do
  let (negative, cs) := sign cs
  let (whole, cs) ← whole? cs
  let (fraction, cs) ← fraction? cs
  let exponent ← exponent? cs
  return { negative, whole, fraction, exponent }

/-- The number that is written with the digits of `n`. -/
def natural (n : Nat) : Number := { whole := Nat.toDigits 10 n }

/-- The number that is written with the digits of `n`, behind a minus sign if it is `negative`. -/
def integer (negative : Bool) (n : Nat) : Number := { natural n with negative }

/-- The natural number that is written with digits alone. -/
def toNat? (n : Number) : Option Nat :=
  if n.negative || !n.fraction.isEmpty || n.exponent.isSome then none else some (digits n.whole)

/-- The literal of a number. -/
def literal (n : Number) : List Char :=
  (if n.negative then ['-'] else []) ++ n.whole ++
    (if n.fraction.isEmpty then [] else '.' :: n.fraction) ++
    match n.exponent with
    | none => []
    | some e => 'e' :: (toString e).toList

/-! ## Integers -/

theorem run?_append {cs rest : List Char} (h : ∀ c ∈ cs, c.isDigit = true) (hne : cs ≠ [])
    (hrest : ∀ c r, rest = c :: r → c.isDigit = false) : run? (cs ++ rest) = some (cs, rest) := by
  have ht : (cs ++ rest).takeWhile Char.isDigit = cs := by
    rw [List.takeWhile_append_of_pos h]
    cases rest with
    | nil => simp
    | cons c r => simp [hrest c r rfl]
  have hd : (cs ++ rest).dropWhile Char.isDigit = rest := by
    rw [List.dropWhile_append_of_pos h]
    cases rest with
    | nil => simp
    | cons c r => simp [hrest c r rfl]
  unfold run?
  rw [ht, hd]
  cases cs with
  | nil => exact absurd rfl hne
  | cons c cs => rfl

/-- Digits that begin with 0 are that digit alone. -/
theorem toDigits_leading {n : Nat} {c : Char} {cs : List Char}
    (h : Nat.toDigits 10 n = c :: cs) : c ≠ '0' ∨ cs = [] := by
  by_cases hn : n < 10
  · rw [Nat.toDigits_eq_if (by omega), if_pos hn] at h
    cases h
    exact .inr rfl
  · rw [Nat.toDigits_eq_if (by omega), if_neg hn] at h
    cases hd : Nat.toDigits 10 (n / 10) with
    | nil => exact absurd hd Nat.toDigits_ne_nil
    | cons d ds =>
      rw [hd] at h
      cases h
      rcases toDigits_leading hd with h | rfl
      · exact .inl h
      · by_cases h10 : n / 10 < 10
        · rw [Nat.toDigits_eq_if (by omega), if_pos h10] at hd
          cases hd
          have : ∀ m < 10, m.digitChar = '0' → m = 0 := by decide
          exact .inl fun h => by have := this _ h10 h; omega
        · rw [Nat.toDigits_eq_if (by omega), if_neg h10] at hd
          have := congrArg List.length hd
          simp at this
termination_by n

theorem isDigit_of_mem_toDigits (n : Nat) : ∀ c ∈ Nat.toDigits 10 n, c.isDigit = true :=
  fun _ h => Nat.isDigit_of_mem_toDigits (by omega) (by omega) h

theorem whole?_toDigits (n : Nat) : whole? (Nat.toDigits 10 n) = some (Nat.toDigits 10 n, []) := by
  have hr : run? (Nat.toDigits 10 n) = some (Nat.toDigits 10 n, []) := by
    rw [← List.append_nil (Nat.toDigits 10 n), run?_append (isDigit_of_mem_toDigits n)
      Nat.toDigits_ne_nil (by simp), List.append_nil]
  unfold whole?
  rw [hr]
  split
  · rename_i h
    simp only [Option.some.injEq, Prod.mk.injEq] at h
    simpa using toDigits_leading h.1
  · rfl

theorem literal_integer (negative : Bool) (n : Nat) :
    (integer negative n).literal = (if negative then ['-'] else []) ++ Nat.toDigits 10 n := by
  cases negative <;> simp [literal, integer, natural]

theorem ofLiteral?_integer (negative : Bool) (n : Nat) :
    ofLiteral? (integer negative n).literal = some (integer negative n) := by
  have hs : sign (integer negative n).literal = (negative, Nat.toDigits 10 n) := by
    rw [literal_integer]
    cases negative with
    | true => rfl
    | false =>
      rw [if_neg Bool.false_ne_true, List.nil_append]
      unfold sign
      split
      · rename_i h
        have := isDigit_of_mem_toDigits n '-' (by simp [h])
        simp at this
      · rfl
  rw [ofLiteral?, hs]
  simp [whole?_toDigits, fraction?, exponent?, integer, natural]

@[simp] theorem toNat?_natural (n : Nat) : (natural n).toNat? = some n := by
  simp [toNat?, natural, digits]

/-! ## The range of binary floating-point numbers -/

/-- Appends digits to a significand as long as it stays in a 64-bit word, and counts the digits
left over. -/
def gather (significand : Nat) : List Char → Nat × Nat
  | [] => (significand, 0)
  | c :: cs =>
    let next := Nat.ofDigitChars 10 [c] significand
    if next < UInt64.size then gather next cs else (significand, cs.length + 1)

/-- The nearest number of at most 53 significant bits, the even one of two that are equally
near. -/
def round53 (n : Nat) : Nat :=
  let unit := Nat.pow 2 (n.log2 + 1 - 53)
  let count := n / unit
  let rest := n % unit
  if 2 * rest < unit ∨ 2 * rest = unit ∧ count % 2 = 0 then count * unit else (count + 1) * unit

/-- The greatest power of ten among the 64-bit floating-point numbers. -/
def maxPower : Nat := 308

/-- The least number that rounds to infinity in 64-bit floating point. -/
def infinite : Nat := Nat.pow 2 1024 - Nat.pow 2 970

/-- Whether the number is finite in 64-bit floating point, where it is the product of its
significand, as far as a word holds it, and a power of ten, both rounded. -/
def isFinite (n : Number) : Bool :=
  let (whole, beyond) := gather 0 n.whole
  let (significand, left) := gather whole n.fraction
  let power : Int := beyond + left - n.fraction.length + n.exponent.getD 0
  significand = 0 || power < 0 ||
    (power ≤ maxPower && round53 significand * round53 (Nat.pow 10 power.toNat) < infinite)

end Number

end CallCircuit.Json
