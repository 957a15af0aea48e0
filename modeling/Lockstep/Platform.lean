import Lockstep.Fault

/-!
# Platforms and their members

A platform is a set of modules meant to move in step. A virtual platform is
only a name: its members are aligned to one version, softly or by force. A
published platform is a module of its own, whose constraints are taken as they
are. Membership comes from rules of the request or from a module's metadata.
-/

namespace Lockstep

/-- How a rule treats the platform. -/
inductive RuleKind where
  /-- Members are aligned; the alignment gives way to what members do not publish. -/
  | virtual
  /-- Members are aligned by force. -/
  | virtualEnforced
  /-- The platform is a real module with constraints of its own; nothing is aligned. -/
  | published
deriving DecidableEq, Repr

namespace RuleKind

def name : RuleKind → String
  | virtual => "virtual"
  | virtualEnforced => "virtual-enforced"
  | published => "published"

def ofName? : String → Option RuleKind
  | "virtual" => some virtual
  | "virtual-enforced" => some virtualEnforced
  | "published" => some published
  | _ => none

def isVirtual : RuleKind → Bool
  | virtual => true
  | virtualEnforced => true
  | published => false

end RuleKind

/-- Which modules a rule is about. -/
inductive Members where
  | one (id : ModuleId)
  | group (group : String)
deriving DecidableEq, Repr

def Members.includes : Members → ModuleId → Bool
  | one m, id => m == id
  | group g, id => g == id.group

/-- The members belong to the platform. -/
structure PlatformRule where
  members : Members
  platform : ModuleId
  kind : RuleKind := .virtual
deriving DecidableEq, Repr

/-- A rule names its members in exactly one way. -/
def PlatformRule.ofFields (one : Option ModuleId) (group : Option String) (platform : ModuleId)
    (kind : RuleKind) : Except Fault PlatformRule :=
  match one, group with
  | some id, none => .ok ⟨.one id, platform, kind⟩
  | none, some g =>
    if g = "" then .error (.unclearMembers platform) else .ok ⟨.group g, platform, kind⟩
  | _, _ => .error (.unclearMembers platform)

/-- The rules of a request, in their order. -/
abbrev PlatformRules := List PlatformRule

/-- The rules about a module. -/
def PlatformRules.memberships (rules : PlatformRules) (id : ModuleId) : List PlatformRule :=
  rules.filter (·.members.includes id)

/-- A platform that a module belongs to by its own metadata. -/
structure Membership where
  platform : ModuleId
  isVirtual : Bool := true
deriving DecidableEq, Repr

def Membership.kind (m : Membership) : RuleKind :=
  if m.isVirtual then .virtual else .published

end Lockstep
