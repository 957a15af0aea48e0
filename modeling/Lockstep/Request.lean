import Lockstep.Catalog
import Lockstep.Settings

/-!
# Resolution requests

What the caller brings: a root module with its dependencies, constraints, the
rules of platform membership, and settings of its own.
-/

namespace Lockstep

/-- A request to resolve the dependencies of a root module. -/
structure Request where
  root : Coordinates
  dependencies : List Dependency := []
  constraints : List DeclaredConstraint := []
  rules : PlatformRules := []
  overrides : Overrides := {}
deriving DecidableEq

namespace Request

/-- The root does not depend on itself. -/
def check (r : Request) : Except Fault Unit :=
  match r.dependencies.find? (·.target == r.root.id) with
  | some d => .error (.selfDependency r.root.id d.text)
  | none => .ok ()

/-- The constraints that the request declares. -/
def declared (r : Request) : SortedSet Constraint :=
  .ofList (r.constraints.map (·.asConstraint .declared))

end Request

end Lockstep
