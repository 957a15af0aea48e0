/-!
# The shortest decimal of a binary number

A finite double stands for all reals that round to it. `Decimal.shortest` finds
the decimal with the fewest digits among them, and of two such decimals the one
nearer to the double; a `Format` says which is taken when both are equally near.
`Decimal.text` lays the digits out, with an exponent or without one.
-/

namespace Lockstep

/-- Decimal digits and the power of ten that the last one counts. -/
structure Decimal where
  digits : Nat
  exponent : Int
deriving DecidableEq, Repr

namespace Decimal

/-- How doubles are written. -/
structure Format where
  /-- Of two decimals equally near, the one with an even last digit is taken; else the upper one. -/
  tiesToEven : Bool
  /-- Positional digits have more than so many before the point, with zeros behind it negative. -/
  least : Option Int
  /-- The greatest number of positional digits before the point. -/
  most : Option Int

/-! ## Digits -/

/-- The bit that normal numbers have above the written ones, `2 ^ 52`. -/
def hidden : Nat := 4503599627370496

/-- A finite double as `m * 2 ^ q`, its sign apart. -/
def binaryParts (bits : UInt64) : Nat × Int :=
  let fraction : Nat := bits.toNat % hidden
  let field : Nat := bits.toNat / hidden % 2048
  if field = 0 then (fraction, -1074) else (fraction + hidden, (field : Int) - 1075)

/-- The reals from `low / unit` to `high / unit`, around `value / unit`. -/
structure Interval where
  low : Nat
  value : Nat
  high : Nat
  unit : Nat
  /-- The ends belong to the interval. -/
  closed : Bool

/-- The reals that round to `m * 2 ^ q`. Below a power of two the grid is twice as fine. -/
def rounding (m : Nat) (q : Int) : Interval :=
  let below := if m = hidden ∧ -1074 < q then 1 else 2
  let scale := Nat.pow 2 (q - 2).toNat
  { low := (4 * m - below) * scale
    value := 4 * m * scale
    high := (4 * m + 2) * scale
    unit := Nat.pow 2 (2 - q).toNat
    closed := m % 2 = 0 }

/-- Both sides of a decimal over a common denominator: the numerators of the decimal and of one
unit of the interval. -/
def scaled (i : Interval) (d : Decimal) : Nat × Nat :=
  (d.digits * Nat.pow 10 d.exponent.toNat * i.unit, Nat.pow 10 (-d.exponent).toNat)

def Interval.contains (i : Interval) (d : Decimal) : Bool :=
  let (n, u) := scaled i d
  if i.closed then i.low * u ≤ n && n ≤ i.high * u else i.low * u < n && n < i.high * u

/-- The distance of a decimal from the middle of the interval, over `10 ^ -exponent`. -/
def Interval.distance (i : Interval) (d : Decimal) : Nat :=
  let (n, u) := scaled i d
  max n (i.value * u) - min n (i.value * u)

/-- The second of two neighbours on a grid comes before the first. -/
def prefersAbove (tiesToEven : Bool) (i : Interval) (below above : Decimal) : Bool :=
  match compare (i.distance above) (i.distance below) with
  | .lt => true
  | .eq => !tiesToEven || above.digits % 2 = 0
  | .gt => false

/-- The multiples of a power of ten on both sides of the middle that are in the interval, the
nearer one first. -/
def neighbours (tiesToEven : Bool) (i : Interval) (exponent : Int) : List Decimal :=
  let floor := i.value * Nat.pow 10 (-exponent).toNat / (i.unit * Nat.pow 10 exponent.toNat)
  let below : Decimal := ⟨floor, exponent⟩
  let above : Decimal := ⟨floor + 1, exponent⟩
  let both := if prefersAbove tiesToEven i below above then [above, below] else [below, above]
  both.filter i.contains

/-- Tries finer and finer grids, from a power of ten downwards. -/
def search (tiesToEven : Bool) (i : Interval) : Nat → Int → Decimal
  | 0, exponent => ⟨0, exponent⟩
  | steps + 1, exponent =>
    match neighbours tiesToEven i exponent with
    | d :: _ => if d.digits = 0 then search tiesToEven i steps (exponent - 1) else d
    | [] => search tiesToEven i steps (exponent - 1)

/-- Without zeros at the end. -/
def strip : Nat → Decimal → Decimal
  | 0, d => d
  | steps + 1, d =>
    if d.digits ≠ 0 ∧ d.digits % 10 = 0 then strip steps ⟨d.digits / 10, d.exponent + 1⟩ else d

/-- The shortest decimal that rounds to a finite double, its sign apart. -/
def shortest (tiesToEven : Bool) (bits : UInt64) : Decimal :=
  let (m, q) := binaryParts bits
  if m = 0 then ⟨0, 0⟩ else strip 400 (search tiesToEven (rounding m q) 700 310)

/-! ## Layout -/

def zeros (n : Nat) : String :=
  String.ofList (List.replicate n '0')

/-- Positional text, with at least one digit behind the point. -/
def positional (digits : String) (point : Int) : String :=
  let length := digits.length
  if point ≤ 0 then "0." ++ zeros (-point).toNat ++ digits
  else if (length : Int) ≤ point then digits ++ zeros (point.toNat - length) ++ ".0"
  else
    String.ofList (digits.toList.take point.toNat) ++ "." ++
      String.ofList (digits.toList.drop point.toNat)

/-- Text with an exponent, which has its sign always; a single digit has no point. -/
def scientific (digits : String) (point : Int) : String :=
  let exponent := (if 0 < point then "+" else "") ++ toString (point - 1)
  match digits.toList with
  | [] => ""
  | [d] => String.ofList [d] ++ "e" ++ exponent
  | d :: rest => String.ofList [d] ++ "." ++ String.ofList rest ++ "e" ++ exponent

def text (f : Format) (d : Decimal) : String :=
  let digits := toString d.digits
  let point := (digits.length : Int) + d.exponent
  if d.digits = 0 then "0.0"
  else if f.least.all (· < point) && f.most.all (point ≤ ·) then positional digits point
  else scientific digits point

/-- The text of any double. -/
def ofFloat (f : Format) (x : Float) : String :=
  if x.isNaN then "NaN"
  else
    let sign := if 9223372036854775808 ≤ x.toBits.toNat then "-" else ""
    if x.isInf then sign ++ "inf" else sign ++ text f (shortest f.tiesToEven x.toBits)

end Decimal

end Lockstep
