import Lockstep.Selection.Demand

/-!
# Errors of a resolution

The ways in which a pass over a well-formed request can fail. All errors of a
pass are reported together.
-/

namespace Lockstep

/-- What could not be resolved: a module, or one version of it. -/
inductive Subject where
  | identity (id : ModuleId)
  | version (c : Coordinates)
deriving DecidableEq, Repr

def Subject.text : Subject → String
  | identity id => id.text
  | version c => c.text

/-- Why something could not be resolved. -/
inductive UnresolvedCause where
  | missing (m : Miss)
  /-- The version is not in the candidate graph. -/
  | unfetched
  | shortfall (s : Shortfall)
  /-- There was no demand to take a version from. -/
  | undemanded
deriving DecidableEq, Repr

def UnresolvedCause.text : UnresolvedCause → String
  | missing m => m.text
  | unfetched => "metadata was never fetched"
  | shortfall s => s.text
  | undemanded => "nothing requested a concrete version"

/-- One side of a disagreement. -/
inductive Party where
  /-- A demand on the module itself. -/
  | demand (d : Demand)
  /-- A demand that fixes the version of a platform's member. -/
  | pin (member : ModuleId) (d : Demand)
  /-- A member left at another version than its platform's. -/
  | astray (member : ModuleId) (version : String)
deriving DecidableEq, Repr

def Party.text : Party → String
  | demand d => d.text
  | pin member d => member.text ++ " (" ++ d.text ++ ")"
  | astray member version => member.text ++ " resolved " ++ version

/-- One reason for a run to fail. -/
inductive ResolveError where
  /-- A selected version has no usable metadata, or a module has no version to select. -/
  | unresolved (subject : Subject) (requestedBy : List Demand) (cause : UnresolvedCause)
  /-- Forced demands disagree. -/
  | versionConflict (id : ModuleId) (parties : List Party)
  /-- Alignment still changed at the last pass allowed. -/
  | noConvergence (iterations : Nat) (oscillating : List Constraint)
  /-- Enforced constraints disagree. -/
  | constraintConflict (id : ModuleId) (parties : List Party)
deriving DecidableEq, Repr

def ResolveError.message : ResolveError → String
  | unresolved subject requestedBy cause =>
    "Could not resolve " ++ subject.text ++ ": " ++ cause.text ++ " (requested by " ++
      ", ".intercalate (requestedBy.map Demand.text) ++ ")"
  | versionConflict id parties =>
    "Conflicting forced versions for " ++ id.text ++ ": " ++
      ", ".intercalate (parties.map Party.text)
  | noConvergence iterations oscillating =>
    "Platform alignment did not converge after " ++ toString iterations ++
      " iteration(s); oscillating: " ++ ", ".intercalate (oscillating.map Constraint.text)
  | constraintConflict id parties =>
    "Enforced constraints on " ++ id.text ++ " disagree: " ++
      ", ".intercalate (parties.map Party.text)

/-- The headline over all errors of a failed run. -/
def failureMessage (errors : List ResolveError) : String :=
  "Dependency resolution failed with " ++ toString errors.length ++ " error(s)"

end Lockstep
