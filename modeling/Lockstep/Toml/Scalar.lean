import Lockstep.Data.Value
import Lockstep.Text.Reader
import Lockstep.Text.Split
import Lockstep.Toml.Text

/-!
# Numbers, truth values and dates of TOML

These are words: runs of letters, digits and a few signs. A word is read as a
whole, so what kind of scalar it is depends on the word alone.
-/

namespace Lockstep.Toml

open Text (Reader)

/-! ## Digits -/

/-- Digits, with underscores between digits only; the digits are returned. -/
def digits? (isDigit : Char → Bool) (cs : List Char) : Option (List Char) :=
  let runs := Text.stretches (· == '_') cs
  if runs.all fun run => !run.isEmpty && run.all isDigit then some runs.flatten else none

/-- A sign, and what follows it. -/
def sign : List Char → Bool × List Char
  | '-' :: rest => (true, rest)
  | '+' :: rest => (false, rest)
  | cs => (false, cs)

/-- Decimal digits without a needless zero in front. -/
def whole? (cs : List Char) : Option (List Char) := do
  let digits ← digits? Char.isDigit cs
  if digits.head? == some '0' && 1 < digits.length then none else some digits

/-! ## Numbers -/

/-- A whole number in some base. -/
def based? (base : Nat) (cs : List Char) : Option Int := do
  let isDigit (c : Char) : Bool := (Text.hexDigit? c).any (· < base)
  let values ← (← digits? isDigit cs).mapM Text.hexDigit?
  return (values.foldl (fun n d => base * n + d) 0 : Nat)

/-- Whole numbers are signed numbers of 64 bits: they lie below this bound, and not below its
opposite. -/
def integerBound : Int := 9223372036854775808

/-- A whole number in one of the four bases. -/
def integer? (cs : List Char) : Option Int := do
  let n ← match cs with
    | '0' :: 'x' :: rest => based? 16 rest
    | '0' :: 'o' :: rest => based? 8 rest
    | '0' :: 'b' :: rest => based? 2 rest
    | _ =>
      let (negative, rest) := sign cs
      let n := Text.decimal (← whole? rest)
      some (if negative then -(n : Int) else n)
  if -integerBound ≤ n ∧ n < integerBound then some n else none

/-- The double nearest to `mantissa * 10 ^ exponent`. Powers of ten that lead out of the range of
doubles whatever the mantissa are not computed. -/
def nearest (mantissa : Nat) (exponent : Int) : Float :=
  if mantissa = 0 then 0
  else if 400 ≤ exponent then 1 / 0
  else if 0 ≤ exponent then Float.ofScientific mantissa false exponent.toNat
  else if exponent < -400 - (Nat.toDigits 10 mantissa).length then 0
  else Float.ofScientific mantissa true (-exponent).toNat

/-- The number `mantissa * 10 ^ exponent` with its sign. One too large for a double is refused,
while one too small below zero counts as infinite. -/
def finite? (negative : Bool) (mantissa : Nat) (exponent : Int) : Option Float :=
  let x := nearest mantissa exponent
  if negative then some (-x) else if x.isInf then none else some x

/-- An exponent, or zero without one. -/
def exponent? : Option (List Char) → Option Int
  | none => some 0
  | some cs => do
    let (negative, rest) := sign cs
    let n := Text.decimal (← digits? Char.isDigit rest)
    return if negative then -(n : Int) else n

/-- The parts before and after an exponent mark. -/
def cutExponent (cs : List Char) : List Char × Option (List Char) :=
  match Text.cut 'e' cs with
  | some (before, after) => (before, some after)
  | none => match Text.cut 'E' cs with
    | some (before, after) => (before, some after)
    | none => (cs, none)

/-- A number with a fraction, an exponent or both, or one that is not finite. -/
def float? (cs : List Char) : Option Float := do
  let (negative, rest) := sign cs
  if rest = "inf".toList then return if negative then -(1 / 0) else 1 / 0
  if rest = "nan".toList then return 0 / 0
  let (number, power) := cutExponent rest
  let exponent ← exponent? power
  match Text.cut '.' number with
  | some (before, after) =>
    let before ← whole? before
    let after ← digits? Char.isDigit after
    finite? negative (Text.decimal (before ++ after)) (exponent - after.length)
  | none =>
    if power.isNone then none
    else finite? negative (Text.decimal (← whole? number)) exponent

/-! ## Dates and times -/

/-- A number of just so many digits within bounds. -/
def field? (width least most : Nat) (cs : List Char) : Option (List Char) :=
  let digits := cs.take width
  if digits.length = width && Text.isDecimal digits && least ≤ Text.decimal digits &&
      Text.decimal digits ≤ most then
    some (cs.drop width)
  else none

def isLeapYear (year : Nat) : Bool :=
  year % 4 = 0 && (year % 100 != 0 || year % 400 = 0)

def daysIn (year month : Nat) : Nat :=
  match month with
  | 2 => if isLeapYear year then 29 else 28
  | 4 | 6 | 9 | 11 => 30
  | _ => 31

/-- The text after a given character. -/
def after? (c : Char) : List Char → Option (List Char)
  | d :: rest => if c = d then some rest else none
  | [] => none

/-- The text after a date. -/
def date? (cs : List Char) : Option (List Char) := do
  let rest ← after? '-' (← field? 4 0 9999 cs)
  let year := Text.decimal (cs.take 4)
  let month := Text.decimal (rest.take 2)
  let rest ← after? '-' (← field? 2 1 12 rest)
  field? 2 1 (daysIn year month) rest

/-- The text after a time of day. -/
def time? (cs : List Char) : Option (List Char) := do
  let rest ← after? ':' (← field? 2 0 23 cs)
  let rest ← after? ':' (← field? 2 0 59 rest)
  let rest ← field? 2 0 60 rest
  match rest with
  | '.' :: fraction =>
    if (fraction.takeWhile Char.isDigit).isEmpty then none
    else some (fraction.dropWhile Char.isDigit)
  | rest => some rest

/-- The text after an offset from universal time, which need not be there. -/
def offset? : List Char → Option (List Char)
  | 'Z' :: rest => some rest
  | 'z' :: rest => some rest
  | '+' :: rest => do field? 2 0 59 (← after? ':' (← field? 2 0 23 rest))
  | '-' :: rest => do field? 2 0 59 (← after? ':' (← field? 2 0 23 rest))
  | cs => some cs

/-- A time with an offset or without one, and nothing after it. -/
def isFullTime (cs : List Char) : Bool :=
  ((time? cs).bind offset?) == some []

/-- A date, a time, or both joined by a letter. -/
def isMoment (cs : List Char) : Bool :=
  time? cs == some [] ||
    match date? cs with
    | some [] => true
    | some (c :: rest) => (c == 'T' || c == 't') && isFullTime rest
    | none => false

/-! ## Words -/

def isWordChar (c : Char) : Bool :=
  c.isAlphanum || c == '+' || c == '-' || c == '_' || c == '.' || c == ':'

/-- The scalar that a word writes. -/
def scalarOfWord? (cs : List Char) : Option Value :=
  if cs = "true".toList then some (.bool true)
  else if cs = "false".toList then some (.bool false)
  else if isMoment cs then some (.moment (String.ofList cs))
  else match integer? cs with
    | some n => some (.integer n)
    | none => (float? cs).map .float

/-- A scalar that is not a string. A date and a time may also be joined by a blank. -/
def word : Reader Value := fun cs =>
  let first := cs.takeWhile isWordChar
  let rest := cs.dropWhile isWordChar
  let joined := match rest with
    | ' ' :: next =>
      let second := next.takeWhile isWordChar
      if date? first == some [] && isFullTime second then
        some (.moment (String.ofList (first ++ ' ' :: second)), next.dropWhile isWordChar)
      else none
    | _ => none
  match joined with
  | some result => some result
  | none => (scalarOfWord? first).map fun v => (v, rest)

end Lockstep.Toml
