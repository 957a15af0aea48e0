import Lockstep.Data.Decoder
import Lockstep.Toml.Value

/-!
# TOML documents

A document is a list of statements, one to a line. Headers say to which table
the entries after them belong; before the first header it is the outermost one.
-/

namespace Lockstep.Toml

open Text (Reader)

/-- One statement of a document. -/
inductive Statement where
  | header (k : Key)
  /-- The header of the next table in a sequence of tables. -/
  | nextHeader (k : Key)
  | entry (k : Key) (v : Value)

/-! ## Reading statements -/

/-- The text after the brackets that close a header. -/
def closed (n : Nat) : List Char → Option (List Char)
  | cs => if cs.take n = List.replicate n ']' then some (cs.drop n) else none

def statement : Reader Statement
  | '[' :: '[' :: cs => do
    let (k, rest) ← key cs
    return (.nextHeader k, ← closed 2 rest)
  | '[' :: cs => do
    let (k, rest) ← key cs
    return (.header k, ← closed 1 rest)
  | cs => do
    let ((k, v), rest) ← assignment value cs
    return (.entry k v, rest)

/-- The text after the rest of a line on which nothing but a comment may stand. -/
def lineRest? (cs : List Char) : Option (List Char) :=
  match skipComment (skipBlanks cs) with
  | [] => some []
  | rest => lineEnd? rest

/-- All statements of a text. The number bounds how many there are. -/
def statements : Nat → List Char → Option (List Statement)
  | 0, _ => none
  | count + 1, cs =>
    match skipSpace cs with
    | [] => some []
    | cs => do
      let (s, rest) ← statement cs
      return s :: (← statements count (← lineRest? rest))

/-! ## From statements to tables -/

/-- The outermost table so far, and the path of the table that entries belong to. -/
structure Draft where
  outermost : Table := .mk .stated []
  current : List String := []

/-- Carries out a statement, if the ones before it allow that. -/
def Draft.extend (d : Draft) : Statement → Option Draft
  | .header k => do
    return ⟨← d.outermost.state k, k.path ++ [k.name]⟩
  | .nextHeader k => do
    return ⟨← d.outermost.extend k, k.path ++ [k.name]⟩
  | .entry k v => do
    return { d with outermost := ← d.outermost.update .implied (Table.add k v) d.current }

/-- Without the mark that may stand in front of a text to show its encoding. -/
def dropMark : List Char → List Char
  | '\uFEFF' :: cs => cs
  | cs => cs

/-- The data that a text writes. -/
def parse? (s : String) : Option Value := do
  let cs := dropMark s.toList
  let d ← (← statements (cs.length + 1) cs).foldlM Draft.extend {}
  return d.outermost.toValue

/-- The data that a text writes, or that it is not in the language. -/
def parse (s : String) : Except DataError Value :=
  match parse? s with
  | some v => .ok v
  | none => .error .malformed

/-- Reads a text in the way of a decoder. -/
def decode {α : Type} (decoder : Decoder α) (s : String) : Except DataError α := do
  decoder .toml (← parse s)

end Lockstep.Toml
