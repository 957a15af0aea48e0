import Lockstep.Toml.Scalar
import Lockstep.Toml.Table

/-!
# Values of TOML

A value is a scalar, an array, which may go over many lines, or an inline
table, which may not.
-/

namespace Lockstep.Toml

open Text (Reader)

def scalar : Reader Value := fun cs =>
  match string cs with
  | some (s, rest) => some (.string s, rest)
  | none => word cs

/-- The rest of an array of items. The number bounds how many there are. -/
def elements (item : Reader Value) : Nat → Reader (List Value)
  | 0, _ => none
  | count + 1, cs =>
    match skipSpace cs with
    | ']' :: rest => some ([], rest)
    | cs => do
      let (v, rest) ← item cs
      match skipSpace rest with
      | ']' :: rest => return ([v], rest)
      | ',' :: rest =>
        let (vs, rest) ← elements item count rest
        return (v :: vs, rest)
      | _ => none

/-- A key, an equals sign and an item. -/
def assignment (item : Reader Value) : Reader (Key × Value) := fun cs => do
  match ← key cs with
  | (k, '=' :: rest) =>
    let (v, rest) ← item (skipBlanks rest)
    return ((k, v), rest)
  | _ => none

/-- The rest of an inline table after one entry or more. -/
def assignments (item : Reader Value) : Nat → Reader (List (Key × Value))
  | 0, _ => none
  | count + 1, cs => do
    let (entry, rest) ← assignment item cs
    match skipBlanks rest with
    | '\x7d' :: rest => return ([entry], rest)
    | ',' :: rest =>
      let (entries, rest) ← assignments item count rest
      return (entry :: entries, rest)
    | _ => none

/-- The rest of an inline table. -/
def inline (item : Reader Value) : Reader Value := fun cs =>
  match skipBlanks cs with
  | '\x7d' :: rest => some (.table [], rest)
  | cs => do
    let (entries, rest) ← assignments item (cs.length + 1) cs
    let t ← entries.foldlM (fun t (k, v) => t.add k v) (Table.mk .stated [])
    return (t.toValue, rest)

/-- A value with at most so many levels of arrays and inline tables. -/
def valueWithin : Nat → Reader Value
  | 0, cs => scalar cs
  | depth + 1, cs =>
    match cs with
    | '[' :: rest => do
      let (vs, rest) ← elements (valueWithin depth) (rest.length + 1) rest
      return (.sequence vs, rest)
    | '\x7b' :: rest => inline (valueWithin depth) rest
    | cs => scalar cs

def value : Reader Value :=
  valueWithin (nestingLimit - 1)

end Lockstep.Toml
