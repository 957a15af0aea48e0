import Lockstep.Data.Numeral
import Lockstep.Sorted.Map

/-!
# Data written in JSON

The entries of an object are put in the order of their names; of two with one
name the last counts.
-/

namespace Lockstep.Value

open Text (Reader push)

def isJsonBlank (c : Char) : Bool :=
  c == ' ' || c == '\t' || c == '\n' || c == '\r'

def skipJsonBlanks (cs : List Char) : List Char :=
  cs.dropWhile isJsonBlank

/-! ## Strings -/

/-- The character written by one unit of UTF-16. -/
def charOfUnit? (n : Nat) : Option Char :=
  if n < 0xD800 ∨ 0xDFFF < n then some (Char.ofNat n) else none

/-- The character written by a pair of units of UTF-16. -/
def charOfUnits? (high low : Nat) : Option Char :=
  if 0xD800 ≤ high ∧ high < 0xDC00 ∧ 0xDC00 ≤ low ∧ low < 0xE000 then
    some (Char.ofNat (0x10000 + 0x400 * (high - 0xD800) + (low - 0xDC00)))
  else none

/-- The character that a letter after a backslash stands for. -/
def escaped? : Char → Option Char
  | '"' => some '"'
  | '\\' => some '\\'
  | '/' => some '/'
  | 'b' => some (Char.ofNat 8)
  | 'f' => some (Char.ofNat 12)
  | 'n' => some '\n'
  | 'r' => some '\r'
  | 't' => some '\t'
  | _ => none

/-- The rest of a string. -/
def jsonString : Reader (List Char)
  | [] => none
  | '"' :: rest => some ([], rest)
  | '\\' :: 'u' :: a :: b :: c :: d :: '\\' :: 'u' :: e :: f :: g :: h :: rest => do
    let first ← Text.hexadecimal? [a, b, c, d]
    match charOfUnit? first with
    | some c => push c (jsonString ('\\' :: 'u' :: e :: f :: g :: h :: rest))
    | none => push (← charOfUnits? first (← Text.hexadecimal? [e, f, g, h])) (jsonString rest)
  | '\\' :: 'u' :: a :: b :: c :: d :: rest => do
    push (← charOfUnit? (← Text.hexadecimal? [a, b, c, d])) (jsonString rest)
  | '\\' :: c :: rest => do push (← escaped? c) (jsonString rest)
  | c :: rest => if 0x20 ≤ c.toNat ∧ c ≠ '\\' then push c (jsonString rest) else none

/-! ## Values -/

/-- The rest of an array of items. The number bounds how many there are. -/
def jsonElements (item : Reader Value) : Nat → Reader (List Value)
  | 0, _ => none
  | count + 1, cs => do
    let (v, rest) ← item (skipJsonBlanks cs)
    match skipJsonBlanks rest with
    | ']' :: rest => return ([v], rest)
    | ',' :: rest =>
      let (vs, rest) ← jsonElements item count rest
      return (v :: vs, rest)
    | _ => none

/-- The rest of an object of items. The number bounds how many there are. -/
def jsonEntries (item : Reader Value) : Nat → Reader (List (String × Value))
  | 0, _ => none
  | count + 1, cs =>
    match skipJsonBlanks cs with
    | '"' :: rest => do
      let (name, rest) ← jsonString rest
      match skipJsonBlanks rest with
      | ':' :: rest =>
        let (v, rest) ← item (skipJsonBlanks rest)
        match skipJsonBlanks rest with
        | '\x7d' :: rest => return ([(String.ofList name, v)], rest)
        | ',' :: rest =>
          let (entries, rest) ← jsonEntries item count rest
          return ((String.ofList name, v) :: entries, rest)
        | _ => none
      | _ => none
    | _ => none

/-- A value that is neither an array nor an object. -/
def jsonScalar : Reader Value
  | 'n' :: 'u' :: 'l' :: 'l' :: rest => some (.null, rest)
  | 't' :: 'r' :: 'u' :: 'e' :: rest => some (.bool true, rest)
  | 'f' :: 'a' :: 'l' :: 's' :: 'e' :: rest => some (.bool false, rest)
  | '"' :: rest => (jsonString rest).map fun (text, rest) => (.string (String.ofList text), rest)
  | cs => do
    let (n, rest) ← Numeral.read cs
    return (← n.value?, rest)

/-- A value with at most so many levels of arrays and objects. -/
def jsonWithin : Nat → Reader Value
  | 0, cs => jsonScalar cs
  | depth + 1, cs =>
    match cs with
    | '[' :: rest =>
      match skipJsonBlanks rest with
      | ']' :: rest => some (.sequence [], rest)
      | rest => do
        let (vs, rest) ← jsonElements (jsonWithin depth) (rest.length + 1) rest
        return (.sequence vs, rest)
    | '\x7b' :: rest =>
      match skipJsonBlanks rest with
      | '\x7d' :: rest => some (.table [], rest)
      | rest => do
        let (entries, rest) ← jsonEntries (jsonWithin depth) (rest.length + 1) rest
        return (.table (SortedMap.ofList entries).entries, rest)
    | cs => jsonScalar cs

/-- Greatest depth of nesting. -/
def jsonNestingLimit : Nat := 127

/-- The data that a text of JSON writes. -/
def ofJson? (text : String) : Option Value := do
  let (v, rest) ← jsonWithin jsonNestingLimit (skipJsonBlanks text.toList)
  if (skipJsonBlanks rest).isEmpty then some v else none

end Lockstep.Value
