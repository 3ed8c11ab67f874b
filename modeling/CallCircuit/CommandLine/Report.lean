/-!
# Error reports

A report is a message and what is beneath it. Causes are indented, and numbered when there are
several; the further lines of a cause stand below its first.
-/

namespace CallCircuit.CommandLine

/-- An error with its causes, from the outermost inwards. -/
structure Report where
  message : String
  causes : List String := []
deriving DecidableEq, Repr, Inhabited

/-- Four blanks, which causes and their further lines are indented by. -/
def indent : List Char := List.replicate 4 ' '

/-- The text with each further line indented by some blanks. -/
def hang (blanks : List Char) (s : String) : List Char :=
  s.toList.flatMap fun c => if c = '\n' then c :: blanks else [c]

/-- A cause that stands alone. -/
def onlyCause (cause : String) : List Char := '\n' :: indent ++ hang indent cause

/-- The number of a cause, right-aligned to five places, with a colon. -/
def causeNumber (number : Nat) : List Char :=
  let digits := Nat.toDigits 10 number
  List.replicate (5 - digits.length) ' ' ++ digits ++ [':', ' ']

/-- Causes with their numbers. -/
def numberedCauses (number : Nat) : List String → List Char
  | [] => []
  | cause :: causes =>
    '\n' :: causeNumber number ++ hang (List.replicate 7 ' ') cause ++
      numberedCauses (number + 1) causes

/-- The lines of the causes. -/
def causeLines : List String → List Char
  | [] => []
  | [cause] => onlyCause cause
  | causes => numberedCauses 0 causes

/-- The text of a report. -/
def Report.text (r : Report) : String :=
  let head := if r.causes.isEmpty then "" else "\n\nCaused by:"
  "Error: " ++ r.message ++ head ++ String.ofList (causeLines r.causes) ++ "\n"

end CallCircuit.CommandLine
