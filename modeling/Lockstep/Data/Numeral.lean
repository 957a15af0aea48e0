import Lockstep.Data.Value
import Lockstep.Text.Reader

/-!
# Numbers of JSON

A `Numeral` is a number as written. One without a point and an exponent is an
integer while it fits into a word of 64 bits; any other is a double. The double
is computed from the leading digits, as many as fit into a word, by products and
quotients with powers of ten, so it need not be the nearest one.
-/

namespace Lockstep

/-- A number as written. -/
structure Numeral where
  negative : Bool
  /-- Digits before the point. -/
  whole : List Char
  /-- Digits behind the point, if there is one. -/
  fraction : Option (List Char)
  /-- The power of ten that the number is multiplied by, if it is written. -/
  power : Option Int
deriving DecidableEq, Repr

namespace Numeral

/-! ## Reading -/

open Text (Reader digitRun)

/-- Digits behind a point, if the text starts with one. -/
def readFraction : Reader (Option (List Char))
  | '.' :: rest => do
    let (run, rest) ← digitRun rest
    return (some run, rest)
  | cs => some (none, cs)

/-- A signed number behind an exponent mark. -/
def readExponent : Reader Int := fun cs => do
  let (negative, rest) := match cs with
    | '-' :: rest => (true, rest)
    | '+' :: rest => (false, rest)
    | cs => (false, cs)
  let (run, rest) ← digitRun rest
  let n : Int := Text.decimal run
  return (if negative then -n else n, rest)

def readPower : Reader (Option Int)
  | 'e' :: rest => (readExponent rest).map fun (n, rest) => (some n, rest)
  | 'E' :: rest => (readExponent rest).map fun (n, rest) => (some n, rest)
  | cs => some (none, cs)

/-- The number at the front of a text. It has no needless zero in front. -/
def read : Reader Numeral := fun cs => do
  let (negative, rest) := match cs with
    | '-' :: rest => (true, rest)
    | cs => (false, cs)
  let (whole, rest) ← digitRun rest
  if whole.head? = some '0' ∧ 1 < whole.length then none
  let (fraction, rest) ← readFraction rest
  let (power, rest) ← readPower rest
  return (⟨negative, whole, fraction, power⟩, rest)

/-! ## Meaning -/

/-- Appends digits to a number as long as it fits into a word; the digits that are left over. -/
def gather (n : Nat) : List Char → Nat × List Char
  | [] => (n, [])
  | c :: cs =>
    let longer := 10 * n + Text.decimal [c]
    if longer < Text.numberBound then gather longer cs else (n, c :: cs)

/-- A double times a power of ten, unless the result is out of range. A quotient by more than
`10 ^ 308` is taken in steps. -/
def scale (x : Float) (power : Int) : Option Float :=
  if x == 0 then some x
  else if 308 < power then none
  else if 0 ≤ power then
    let y := x * Float.ofScientific 1 false power.toNat
    if y.isInf then none else some y
  else if -308 ≤ power then some (x / Float.ofScientific 1 false (-power).toNat)
  else scale (x / Float.ofScientific 1 false 308) (power + 308)
termination_by (-power).toNat

/-- The double that a number stands for, its sign apart. Digits that do not fit are dropped; those
dropped before the point count as zeros. -/
def magnitude? (n : Numeral) : Option Float :=
  let fraction := n.fraction.getD []
  let (significand, dropped) := gather 0 n.whole
  let (significand, unused) := gather significand fraction
  let behind : Int := fraction.length - unused.length
  scale (Float.ofScientific significand false 0) (n.power.getD 0 + dropped.length - behind)

/-- The integer that a number stands for, if it is written as one and fits into a word. Zero has no
sign. -/
def integer? (n : Numeral) : Option Int :=
  let m := Text.decimal n.whole
  if n.fraction.isSome ∨ n.power.isSome then none
  else if n.negative then if 0 < m ∧ 2 * m ≤ Text.numberBound then some (-m) else none
  else if m < Text.numberBound then some m else none

def value? (n : Numeral) : Option Value :=
  match n.integer? with
  | some i => some (.integer i)
  | none => n.magnitude?.map fun x => .float (if n.negative then -x else x)

end Numeral

end Lockstep
