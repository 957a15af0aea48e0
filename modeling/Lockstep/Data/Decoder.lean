import Lockstep.Data.Value
import Lockstep.Fault

/-!
# Reading data

A decoder reads a value of some type from data, or says what is wrong with the
data. Records are tables with known keys; they may also be written as the
sequence of their fields.
-/

namespace Lockstep

/-- What is wrong with data. -/
inductive DataError where
  | missingField (name : String)
  | unknownField (name : String)
  | unknownVariant (name : String)
  /-- A value of another kind is wanted; the value is given as messages show it. -/
  | invalidType (shape : String)
  /-- The kind is right, but not the value. -/
  | invalidValue (shape : String)
  /-- The data is well shaped but has no meaning. -/
  | refused (fault : Fault)
  /-- The text is not in the language, or data cannot be of this shape in it. -/
  | malformed
deriving DecidableEq, Repr

def DataError.detail : DataError → String
  | missingField name => "missing field `" ++ name ++ "`"
  | unknownField name => "unknown field `" ++ name ++ "`"
  | unknownVariant name => "unknown variant `" ++ name ++ "`"
  | invalidType shape => "invalid type: " ++ shape
  | invalidValue shape => "invalid value: " ++ shape
  | refused fault => fault.message
  | malformed => "syntax error"

/-- Reads a value of a type from data. -/
abbrev Decoder (α : Type) := Dialect → Value → Except DataError α

namespace Decoder

variable {α β : Type}

def wrongType (d : Dialect) (v : Value) : Except DataError α :=
  .error (.invalidType (v.shape d))

def string : Decoder String := fun d v => match v with
  | .string s => .ok s
  | v => wrongType d v

def bool : Decoder Bool := fun d v => match v with
  | .bool b => .ok b
  | v => wrongType d v

def natural : Decoder Nat := fun d v => match v with
  | .integer n => if 0 ≤ n then .ok n.toNat else .error (.invalidValue (v.shape d))
  | v => wrongType d v

/-- A text with a meaning. -/
def ofText (read : String → Except Fault α) : Decoder α := fun d v => do
  match read (← string d v) with
  | .ok a => .ok a
  | .error fault => .error (.refused fault)

def list (element : Decoder α) : Decoder (List α) := fun d v => match v with
  | .sequence vs => vs.mapM (element d)
  | v => wrongType d v

/-- Absent data may be written as `null`. -/
def nullable (decoder : Decoder α) : Decoder (Option α) := fun d v => match v with
  | .null => .ok none
  | v => some <$> decoder d v

/-- What stands beside the name of a variant that is written as the only key of a table. -/
def emptyPayload (d : Dialect) (v : Value) : Except DataError Unit :=
  match d, v with
  | .json, .null => .ok ()
  | .json, v => wrongType d v
  | .toml, .table [] => .ok ()
  | .toml, .sequence [] => .ok ()
  | .toml, _ => .error .malformed

/-- One of several names. -/
def choice (ofName? : String → Option α) : Decoder α := fun d v =>
  let named (name : String) : Except DataError α :=
    match ofName? name with
    | some a => .ok a
    | none => .error (.unknownVariant name)
  match d, v with
  | _, .string name => named name
  | d, .table [(name, payload)] => do
    let a ← named name
    emptyPayload d payload
    return a
  | .json, .table t => .error (.invalidValue (Value.shape .json (.table t)))
  | .json, v => wrongType .json v
  | .toml, _ => .error .malformed

end Decoder

/-! ## Records -/

/-- The fields of a record as read. -/
structure Fields where
  dialect : Dialect
  entries : List (String × Value)
  /-- The record is written as a sequence, in which fields go by position. -/
  positional : Bool

namespace Fields

variable {α : Type}

/-- The fields of a record with the given names. A closed record has no others. -/
def ofValue (names : List String) (closed : Bool) (d : Dialect) (v : Value) :
    Except DataError Fields :=
  match v.entries?, v with
  | some entries, _ =>
    match entries.find? fun (name, _) => closed && !names.contains name with
    | some (name, _) => .error (.unknownField name)
    | none => .ok ⟨d, entries, false⟩
  | none, .sequence vs =>
    if d = .json ∧ names.length < vs.length then .error .malformed
    else .ok ⟨d, names.zip vs, true⟩
  | none, v => Decoder.wrongType d v

def get? (f : Fields) (name : String) : Option Value :=
  (f.entries.find? (·.1 == name)).map Prod.snd

/-- A field that has to be there. -/
def required (f : Fields) (name : String) (decoder : Decoder α) : Except DataError α :=
  match f.get? name with
  | some v => decoder f.dialect v
  | none => .error (if f.positional then .malformed else .missingField name)

/-- A field with a value of its own when it is not there. -/
def default (f : Fields) (name : String) (absent : α) (decoder : Decoder α) :
    Except DataError α :=
  match f.get? name with
  | some v => decoder f.dialect v
  | none => .ok absent

/-- A field that need not be there and may be `null`. -/
def optional (f : Fields) (name : String) (decoder : Decoder α) : Except DataError (Option α) :=
  f.default name none decoder.nullable

end Fields

end Lockstep
