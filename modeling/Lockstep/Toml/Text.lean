import Lockstep.Text.Reader

/-!
# Strings and keys of TOML

Strings have four forms, and keys one or more parts. Readers fail without
saying where, since a file with a fault is refused as a whole.
-/

namespace Lockstep.Toml

open Text (Reader push)

/-! ## Blanks, ends of lines and comments -/

def isBlank (c : Char) : Bool :=
  c == ' ' || c == '\t'

def skipBlanks (cs : List Char) : List Char :=
  cs.dropWhile isBlank

/-- Characters of comments and of literal strings: all but the control characters. -/
def isPlain (c : Char) : Bool :=
  c == '\t' || (0x20 ≤ c.toNat && c.toNat ≤ 0x7E) || 0x80 ≤ c.toNat

/-- The text after the end of a line, if the text starts with one. -/
def lineEnd? : List Char → Option (List Char)
  | '\n' :: rest => some rest
  | '\r' :: '\n' :: rest => some rest
  | _ => none

/-- The text after a comment, if it starts with one. -/
def skipComment : List Char → List Char
  | '#' :: rest => rest.dropWhile isPlain
  | cs => cs

/-- Skips blanks, comments and ends of lines, in any number. The first argument bounds it. -/
def skipLines : Nat → List Char → List Char
  | 0, cs => cs
  | fuel + 1, cs =>
    let rest := skipComment (skipBlanks cs)
    match lineEnd? rest with
    | some rest => skipLines fuel rest
    | none => rest

/-- Skips everything between the elements of an array. -/
def skipSpace (cs : List Char) : List Char :=
  skipLines (cs.length + 1) cs

/-! ## Escapes -/

/-- The character with a hexadecimal code. -/
def charOfHex? (digits : List Char) : Option Char := do
  let n ← Text.hexadecimal? digits
  if n < 0xD800 ∨ (0xDFFF < n ∧ n < 0x110000) then some (Char.ofNat n) else none

/-- The character that a letter after a backslash stands for. -/
def escaped? : Char → Option Char
  | 'b' => some (Char.ofNat 8)
  | 't' => some '\t'
  | 'n' => some '\n'
  | 'f' => some (Char.ofNat 12)
  | 'r' => some '\r'
  | '"' => some '"'
  | '\\' => some '\\'
  | _ => none

/-! ## Strings -/

/-- The rest of a string between double quotes. -/
def basic : Reader (List Char)
  | [] => none
  | '"' :: rest => some ([], rest)
  | '\\' :: 'u' :: a :: b :: c :: d :: rest => do
    push (← charOfHex? [a, b, c, d]) (basic rest)
  | '\\' :: 'U' :: a :: b :: c :: d :: e :: f :: g :: h :: rest => do
    push (← charOfHex? [a, b, c, d, e, f, g, h]) (basic rest)
  | '\\' :: c :: rest => do push (← escaped? c) (basic rest)
  | c :: rest => if isPlain c && c != '\\' then push c (basic rest) else none

/-- The rest of a string between single quotes. -/
def literal : Reader (List Char)
  | [] => none
  | '\'' :: rest => some ([], rest)
  | c :: rest => if isPlain c then push c (literal rest) else none

/-- A backslash at the end of a line, blanks apart. -/
def continuesLine (cs : List Char) : Bool :=
  (lineEnd? (skipBlanks cs)).isSome

/-- The rest of a string between triple double quotes. Up to two quotes may stand before the
closing ones. While `joining`, blanks and ends of lines are left out. -/
def multilineBasic (joining : Bool) : Reader (List Char)
  | [] => none
  | '"' :: '"' :: '"' :: '"' :: '"' :: rest => some (['"', '"'], rest)
  | '"' :: '"' :: '"' :: '"' :: rest => some (['"'], rest)
  | '"' :: '"' :: '"' :: rest => some ([], rest)
  | '\\' :: 'u' :: a :: b :: c :: d :: rest => do
    push (← charOfHex? [a, b, c, d]) (multilineBasic false rest)
  | '\\' :: 'U' :: a :: b :: c :: d :: e :: f :: g :: h :: rest => do
    push (← charOfHex? [a, b, c, d, e, f, g, h]) (multilineBasic false rest)
  | '\\' :: c :: rest =>
    match escaped? c with
    | some e => push e (multilineBasic false rest)
    | none => if continuesLine (c :: rest) then multilineBasic true (c :: rest) else none
  | '\r' :: '\n' :: rest =>
    if joining then multilineBasic true rest else push '\n' (multilineBasic false rest)
  | c :: rest =>
    if c == '\n' || isBlank c then
      if joining then multilineBasic true rest else push c (multilineBasic false rest)
    else if isPlain c && c != '\\' then push c (multilineBasic false rest)
    else none

/-- The rest of a string between triple single quotes. -/
def multilineLiteral : Reader (List Char)
  | [] => none
  | '\'' :: '\'' :: '\'' :: '\'' :: '\'' :: rest => some (['\'', '\''], rest)
  | '\'' :: '\'' :: '\'' :: '\'' :: rest => some (['\''], rest)
  | '\'' :: '\'' :: '\'' :: rest => some ([], rest)
  | '\r' :: '\n' :: rest => push '\n' (multilineLiteral rest)
  | c :: rest =>
    if c == '\n' || isPlain c then push c (multilineLiteral rest) else none

/-- Without the end of a line in front. -/
def dropLineEnd (cs : List Char) : List Char :=
  (lineEnd? cs).getD cs

/-- A string in any of its four forms. -/
def string : Reader String := fun cs =>
  let read := match cs with
    | '"' :: '"' :: '"' :: rest => multilineBasic false (dropLineEnd rest)
    | '\'' :: '\'' :: '\'' :: rest => multilineLiteral (dropLineEnd rest)
    | '"' :: rest => basic rest
    | '\'' :: rest => literal rest
    | _ => none
  read.map fun (text, rest) => (String.ofList text, rest)

/-! ## Keys -/

def isBare (c : Char) : Bool :=
  c.isAlphanum || c == '-' || c == '_'

/-- One part of a key: bare, or a string on one line. -/
def keyPart : Reader String := fun cs =>
  match cs with
  | '"' :: rest => (basic rest).map fun (text, rest) => (String.ofList text, rest)
  | '\'' :: rest => (literal rest).map fun (text, rest) => (String.ofList text, rest)
  | _ =>
    let bare := cs.takeWhile isBare
    if bare.isEmpty then none else some (String.ofList bare, cs.dropWhile isBare)

/-- A key: the tables that it leads through, and the name in the last of them. -/
structure Key where
  path : List String
  name : String
deriving DecidableEq, Repr

/-- Parts joined by dots, with blanks around each; the first argument bounds their number. -/
def keyParts : Nat → Reader Key
  | 0, _ => none
  | parts + 1, cs => do
    let (part, rest) ← keyPart (skipBlanks cs)
    match skipBlanks rest with
    | '.' :: rest =>
      let (k, rest) ← keyParts parts rest
      return (⟨part :: k.path, k.name⟩, rest)
    | rest => return (⟨[], part⟩, rest)

/-- Depth of nesting at which data is refused. -/
def nestingLimit : Nat := 80

def key : Reader Key :=
  keyParts (nestingLimit - 1)

end Lockstep.Toml
