import Lockstep.Sorted.List
import Lockstep.Text.Split

/-!
# Module identities and coordinates

An identity `group:name` names a module whatever its version; coordinates
`group:name:version` name one published version of it. Both are read from text
and written back to the same text, and both are ordered field by field.
-/

namespace Lockstep

/-- A module, independent of its version. -/
structure ModuleId where
  group : String
  name : String
deriving DecidableEq, Repr, Inhabited

/-- One version of a module. -/
structure Coordinates where
  id : ModuleId
  version : String
deriving DecidableEq, Repr, Inhabited

namespace ModuleId

def text (id : ModuleId) : String :=
  id.group ++ ":" ++ id.name

/-- Reads `group:name`. Both parts are non-empty and the name holds no colon. -/
def ofString? (s : String) : Option ModuleId :=
  match Text.cut ':' s.toList with
  | none => none
  | some (group, name) =>
    if group.isEmpty || name.isEmpty || name.contains ':' then none
    else some ⟨String.ofList group, String.ofList name⟩

/-- The coordinates of a version of this module. -/
def atVersion (id : ModuleId) (version : String) : Coordinates :=
  ⟨id, version⟩

instance : Ord ModuleId :=
  ⟨compareLex (compareOn ModuleId.group) (compareOn ModuleId.name)⟩

instance : Std.TransOrd ModuleId :=
  inferInstanceAs (Std.TransCmp (compareLex (compareOn ModuleId.group) (compareOn ModuleId.name)))

instance : Std.LawfulEqOrd ModuleId where
  eq_of_compare {a b} h := by
    have h := (compareLex_eq_eq.1 h).imp compareOn_eq_iff.1 compareOn_eq_iff.1
    cases a
    cases b
    simpa only [mk.injEq] using h

end ModuleId

namespace Coordinates

def text (c : Coordinates) : String :=
  c.id.text ++ ":" ++ c.version

/-- Reads `group:name:version`: three non-empty parts without colons. -/
def ofString? (s : String) : Option Coordinates :=
  match Text.cut ':' s.toList with
  | none => none
  | some (group, rest) =>
    match Text.cut ':' rest with
    | none => none
    | some (name, version) =>
      if group.isEmpty || name.isEmpty || version.isEmpty || version.contains ':' then none
      else some ⟨⟨String.ofList group, String.ofList name⟩, String.ofList version⟩

instance : Ord Coordinates :=
  ⟨compareLex (compareOn Coordinates.id) (compareOn Coordinates.version)⟩

instance : Std.TransOrd Coordinates :=
  inferInstanceAs
    (Std.TransCmp (compareLex (compareOn Coordinates.id) (compareOn Coordinates.version)))

instance : Std.LawfulEqOrd Coordinates where
  eq_of_compare {a b} h := by
    have h := (compareLex_eq_eq.1 h).imp compareOn_eq_iff.1 compareOn_eq_iff.1
    cases a
    cases b
    simpa only [mk.injEq] using h

end Coordinates

end Lockstep
