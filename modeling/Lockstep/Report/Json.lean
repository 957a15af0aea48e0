/-!
# JSON documents

Documents with their fields in a fixed order, and their text with one field or
element to a line, two spaces to a level. Only what JSON requires is escaped.
-/

namespace Lockstep

/-- A JSON document without fractions. -/
inductive Json where
  | null
  | bool (b : Bool)
  | number (n : Nat)
  | string (s : String)
  | array (elements : List Json)
  | object (fields : List (String × Json))

namespace Json

/-- Four hexadecimal digits. -/
def hex4 (n : Nat) : List Char :=
  let digits := Nat.toDigits 16 n
  List.replicate (4 - digits.length) '0' ++ digits

/-- A character inside quotes: quotes, backslashes and control characters are escaped. -/
def escape (c : Char) : List Char :=
  match c with
  | '"' => ['\\', '"']
  | '\\' => ['\\', '\\']
  | '\n' => ['\\', 'n']
  | '\r' => ['\\', 'r']
  | '\t' => ['\\', 't']
  | c =>
    if c.toNat = 8 then ['\\', 'b']
    else if c.toNat = 12 then ['\\', 'f']
    else if c.toNat < 0x20 then '\\' :: 'u' :: hex4 c.toNat
    else [c]

def quoted (s : String) : String :=
  "\"" ++ String.ofList (s.toList.flatMap escape) ++ "\""

/-- Items on lines of their own, between brackets. -/
def enclosed (margin opening closing : String) (items : List String) : String :=
  if items.isEmpty then opening ++ closing
  else
    let inner := "\n" ++ margin ++ "  "
    opening ++ inner ++ ("," ++ inner).intercalate items ++ "\n" ++ margin ++ closing

mutual

/-- The text of a document; lines after the first start with the margin. -/
def lines (margin : String) : Json → String
  | null => "null"
  | bool b => if b then "true" else "false"
  | number n => toString n
  | string s => quoted s
  | array elements => enclosed margin "[" "]" (elementLines (margin ++ "  ") elements)
  | object fields => enclosed margin "\x7b" "\x7d" (fieldLines (margin ++ "  ") fields)

def elementLines (margin : String) : List Json → List String
  | [] => []
  | e :: es => lines margin e :: elementLines margin es

def fieldLines (margin : String) : List (String × Json) → List String
  | [] => []
  | f :: fs => fieldLine margin f :: fieldLines margin fs

def fieldLine (margin : String) : String × Json → String
  | (name, value) => quoted name ++ ": " ++ lines margin value

end

/-- The text of a document. -/
def text (j : Json) : String :=
  j.lines ""

end Json

end Lockstep
