/-!
# Why a version was selected, and what became of an edge
-/

namespace Lockstep

/-- Why a module ended up at its version. -/
inductive Reason where
  /-- Every demand agreed. -/
  | default
  /-- A forced dependency. -/
  | forced
  /-- The highest of differing demands won. -/
  | conflictResolved
  /-- A constraint named the version. -/
  | byConstraint
  /-- The edge was cut by an exclusion on the way to it. -/
  | byAncestorExclusion
deriving DecidableEq, Repr

namespace Reason

def name : Reason → String
  | default => "default"
  | forced => "forced"
  | conflictResolved => "conflict-resolved"
  | byConstraint => "by-constraint"
  | byAncestorExclusion => "by-ancestor-exclusion"

def ofName? : String → Option Reason
  | "default" => some default
  | "forced" => some forced
  | "conflict-resolved" => some conflictResolved
  | "by-constraint" => some byConstraint
  | "by-ancestor-exclusion" => some byAncestorExclusion
  | _ => none

end Reason

/-- What became of an edge of a selected module or of the root. -/
inductive EdgeStatus where
  /-- The selected version is one that the edge asks for. -/
  | honored
  /-- Another demand won. -/
  | overridden
  /-- The target was excluded on the way. -/
  | excluded
deriving DecidableEq, Repr

namespace EdgeStatus

def name : EdgeStatus → String
  | honored => "honored"
  | overridden => "overridden"
  | excluded => "excluded"

def ofName? : String → Option EdgeStatus
  | "honored" => some honored
  | "overridden" => some overridden
  | "excluded" => some excluded
  | _ => none

end EdgeStatus

end Lockstep
