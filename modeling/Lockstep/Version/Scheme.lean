import Lockstep.Version.Segments
import Lockstep.Version.Semantic

/-!
# Version schemes

The orders that a request can choose by name.
-/

namespace Lockstep

/-- A named version order. -/
inductive Scheme where
  | maven
  | semver
deriving DecidableEq, Repr, Inhabited

namespace Scheme

def name : Scheme → String
  | maven => "maven"
  | semver => "semver"

def ofName? : String → Option Scheme
  | "maven" => some maven
  | "semver" => some semver
  | _ => none

def order : Scheme → VersionOrder
  | maven => Version.segmentOrder
  | semver => Version.semanticOrder

theorem ofName?_name (s : Scheme) : ofName? s.name = some s := by
  cases s <;> rfl

end Scheme

end Lockstep
