import Lockstep.Requirement
import Lockstep.Sorted.Set

/-!
# Dependencies

A dependency asks for another module, possibly by force, possibly as a
platform, and may exclude modules from everything reached through it.
-/

namespace Lockstep

/-! ## Categories -/

/-- What a module publishes, or what a dependency asks it to be. -/
inductive Category where
  | library
  /-- A platform whose constraints take part in the selection. -/
  | platform
  /-- A platform whose constraints are forced. -/
  | enforcedPlatform
deriving DecidableEq, Repr, Inhabited

namespace Category

def name : Category → String
  | library => "library"
  | platform => "platform"
  | enforcedPlatform => "enforced-platform"

def ofName? : String → Option Category
  | "library" => some library
  | "platform" => some platform
  | "enforced-platform" => some enforcedPlatform
  | _ => none

def isPlatform : Category → Bool
  | library => false
  | platform => true
  | enforcedPlatform => true

end Category

/-! ## Exclusions -/

/-- Modules to leave out: a whole group, or one module of it. -/
structure Exclusion where
  group : String
  name : Option String
deriving DecidableEq, Repr

namespace Exclusion

def ofModule (id : ModuleId) : Exclusion :=
  ⟨id.group, some id.name⟩

def ofGroup (group : String) : Exclusion :=
  ⟨group, none⟩

def covers (e : Exclusion) (id : ModuleId) : Bool :=
  e.group == id.group && e.name.all (· == id.name)

def text (e : Exclusion) : String :=
  match e.name with
  | some name => e.group ++ ":" ++ name
  | none => e.group

/-- Reads `group` or `group:name`. -/
def ofString (s : String) : Except Fault Exclusion :=
  if s = "" then .error .emptyExclusion
  else match ModuleId.ofString? s with
    | some id => .ok (ofModule id)
    | none => if s.toList.contains ':' then .error (.invalidExclusion s) else .ok (ofGroup s)

instance : Ord Exclusion :=
  ⟨compareLex (compareOn Exclusion.group) (compareOn Exclusion.name)⟩

instance : Std.TransOrd Exclusion :=
  inferInstanceAs (Std.TransCmp (compareLex (compareOn Exclusion.group) (compareOn Exclusion.name)))

instance : Std.LawfulEqOrd Exclusion where
  eq_of_compare {a b} h := by
    have h := (compareLex_eq_eq.1 h).imp compareOn_eq_iff.1 compareOn_eq_iff.1
    cases a
    cases b
    simpa only [mk.injEq] using h

end Exclusion

/-- The modules left out on a way through the graph. -/
abbrev Exclusions := SortedSet Exclusion

/-- Some exclusion of the set covers the module. -/
def Exclusions.exclude (set : Exclusions) (id : ModuleId) : Bool :=
  set.any (·.covers id)

/-! ## Dependencies -/

/-- A request for another module. -/
structure Dependency where
  target : ModuleId
  requirement : Requirement
  /-- The request bypasses the rule that the highest version wins. -/
  forced : Bool := false
  /-- What the target is asked to be, if the dependency says so. -/
  category : Option Category := none
  /-- Modules left out of everything reached through this dependency. -/
  exclusions : Exclusions := ∅
deriving DecidableEq

namespace Dependency

/-- The request of one version, written as texts. -/
def exact (target version : String) : Except Fault Dependency := do
  let id ← ModuleId.ofString target
  return { target := id, requirement := ← Requirement.ofString version }

def force (d : Dependency) : Dependency :=
  { d with forced := true }

def withCategory (d : Dependency) (category : Category) : Dependency :=
  { d with category := some category }

def excluding (d : Dependency) (e : Exclusion) : Dependency :=
  { d with exclusions := d.exclusions.insert e }

/-- The dependency asks for its target as a platform. -/
def targetsPlatform (d : Dependency) : Bool :=
  d.category.any Category.isPlatform

def text (d : Dependency) : String :=
  d.target.text ++ ":" ++ d.requirement.text ++ if d.forced then " (forced)" else ""

/-- The dependency that the written fields describe. A preference is soft and cannot be forced. -/
def ofFields (target : ModuleId) (version prefer : Option String) (forced : Bool)
    (category : Option Category) (exclusions : Exclusions) : Except Fault Dependency := do
  let requirement ← match version, prefer with
    | some v, none => Requirement.ofString v
    | none, some p =>
      let p := Text.trim p.toList
      if p.isEmpty then .error (.noVersion target) else .ok (.prefer (String.ofList p))
    | some _, some _ => .error (.versionAndPreference target)
    | none, none => .error (.noVersion target)
  if forced && requirement.isPrefer then .error (.forcedPreference target)
  else return { target, requirement, forced, category, exclusions }

end Dependency

end Lockstep
