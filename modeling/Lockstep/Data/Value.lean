import Lockstep.Decimal.Shortest
import Lockstep.Text.Quoted

/-!
# Data before it has a meaning

Requests, catalogs and settings are written as nested tables. A `Value` is such
data as read, whatever the language it was written in.
-/

namespace Lockstep

/-- Nested data. -/
inductive Value where
  | null
  | bool (b : Bool)
  | integer (n : Int)
  | float (x : Float)
  | string (s : String)
  /-- A date, a time or both. -/
  | moment (text : String)
  | sequence (elements : List Value)
  | table (entries : List (String × Value))
deriving Inhabited

/-- The languages that data is written in. They differ in a few rules. -/
inductive Dialect where
  | json
  | toml
deriving DecidableEq, Repr

/-- Large and small JSON numbers are shown with an exponent, numbers of TOML never. Of two texts
equally near, JSON takes the one with an even last digit and TOML the greater one. -/
def Dialect.floatFormat : Dialect → Decimal.Format
  | json => ⟨true, some (-5), some 16⟩
  | toml => ⟨false, none, none⟩

/-- The name under which a record finds a date. -/
def Value.momentName : String :=
  "$__toml_private_datetime"

/-- The entries of a table. A date counts as a table with its text under a name of its own. -/
def Value.entries? : Value → Option (List (String × Value))
  | table entries => some entries
  | moment text => some [(momentName, string text)]
  | _ => none

/-- A value as a message shows it. -/
def Value.shape (d : Dialect) : Value → String
  | null => "null"
  | bool b => if b then "boolean `true`" else "boolean `false`"
  | integer n => "integer `" ++ toString n ++ "`"
  | float x => "floating point `" ++ Decimal.ofFloat d.floatFormat x ++ "`"
  | string s => "string " ++ Text.quoted s
  | moment _ => "map"
  | sequence _ => "sequence"
  | table _ => "map"

end Lockstep
