/-!
# Digits, and readers of texts

Digits are valued by position. A reader takes the text still to be read and
returns what it read together with the rest. It fails without saying where.
-/

namespace Lockstep.Text

/-! ## Digits -/

/-- The value of a run of decimal digits, the most significant one first. -/
def decimal (cs : List Char) : Nat :=
  cs.foldl (fun n c => 10 * n + (c.toNat - '0'.toNat)) 0

/-- A non-empty run of decimal digits. -/
def isDecimal (cs : List Char) : Bool :=
  !cs.isEmpty && cs.all Char.isDigit

/-- The value of a hexadecimal digit. -/
def hexDigit? (c : Char) : Option Nat :=
  if c.isDigit then some (c.toNat - '0'.toNat)
  else if 'a' ≤ c ∧ c ≤ 'f' then some (c.toNat - 'a'.toNat + 10)
  else if 'A' ≤ c ∧ c ≤ 'F' then some (c.toNat - 'A'.toNat + 10)
  else none

/-- The value of hexadecimal digits, the most significant one first. -/
def hexadecimal? (cs : List Char) : Option Nat := do
  return (← cs.mapM hexDigit?).foldl (fun n d => 16 * n + d) 0

/-- Numbers of 64 bits lie below this bound. -/
def numberBound : Nat := 18446744073709551616

/-! ## Readers -/

/-- Reads something from the front of a text. -/
abbrev Reader (α : Type) := List Char → Option (α × List Char)

/-- Puts a character in front of a text that is read. -/
def push (c : Char) (r : Option (List Char × List Char)) : Option (List Char × List Char) :=
  r.map fun (text, rest) => (c :: text, rest)

/-- A non-empty run of digits. -/
def digitRun : Reader (List Char) := fun cs =>
  let run := cs.takeWhile Char.isDigit
  if run.isEmpty then none else some (run, cs.dropWhile Char.isDigit)

end Lockstep.Text
