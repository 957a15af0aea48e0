import Lockstep.Coordinates

/-!
# Faults of requests and catalogs

Each way in which a request, a catalog or one of their parts can be wrong,
apart from the shape of the data itself. `Fault.reason` is the wording.
-/

namespace Lockstep

/-- Why a request or a catalog is refused. -/
inductive Fault where
  | emptyRequirement
  | malformedRange (spec : String)
  | invalidIdentity (text : String)
  | invalidCoordinates (text : String)
  | emptyExclusion
  | invalidExclusion (text : String)
  /-- A dependency gives both a version and a preference. -/
  | versionAndPreference (target : ModuleId)
  /-- A dependency gives neither a version nor a preference. -/
  | noVersion (target : ModuleId)
  | forcedPreference (target : ModuleId)
  /-- A platform rule names no members, or names them in two ways. -/
  | unclearMembers (platform : ModuleId)
  | duplicateModule (coordinates : Coordinates)
  /-- The root module depends on itself; the dependency is given as text. -/
  | selfDependency (root : ModuleId) (dependency : String)
deriving DecidableEq, Repr

namespace Fault

def reason : Fault → String
  | emptyRequirement => "empty version requirement"
  | malformedRange spec => s!"malformed version range `{spec}`"
  | invalidIdentity text => s!"invalid module identity `{text}`, expected `group:name`"
  | invalidCoordinates text =>
    s!"invalid module coordinates `{text}`, expected `group:name:version`"
  | emptyExclusion => "empty exclusion"
  | invalidExclusion text => s!"invalid exclusion `{text}`, expected `group` or `group:name`"
  | versionAndPreference target =>
    s!"dependency on {target.text} declares both `version` and `prefer`"
  | noVersion target => s!"dependency on {target.text} must declare `version` or `prefer`"
  | forcedPreference target => s!"dependency on {target.text} cannot force a preferred version"
  | unclearMembers platform =>
    s!"platform rule for {platform.text} needs exactly one of `module` or `group`"
  | duplicateModule coordinates => s!"module {coordinates.text} is declared more than once"
  | selfDependency root dependency =>
    s!"root module {root.text} cannot depend on itself ({dependency})"

def message (fault : Fault) : String :=
  "Request error: " ++ fault.reason

end Fault

/-! ## Readers that name the fault -/

/-- An identity, or the fault of a text that is none. -/
def ModuleId.ofString (s : String) : Except Fault ModuleId :=
  match ofString? s with
  | some id => .ok id
  | none => .error (.invalidIdentity s)

/-- Coordinates, or the fault of a text that is none. -/
def Coordinates.ofString (s : String) : Except Fault Coordinates :=
  match ofString? s with
  | some c => .ok c
  | none => .error (.invalidCoordinates s)

end Lockstep
