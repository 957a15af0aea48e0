import Lockstep.Version.Scheme

/-!
# Settings of a run

The user's settings have a default for each field; a request may override any
of them for itself.
-/

namespace Lockstep

/-- How a request is resolved. -/
structure Settings where
  /-- Passes after which a run that still changes is given up. -/
  maxIterations : Nat := 16
  /-- Lookups that may be in flight at once. -/
  maxConcurrentLookups : Nat := 8
  scheme : Scheme := .maven
deriving DecidableEq, Repr, Inhabited

/-- The settings that a request brings itself. -/
structure Overrides where
  maxIterations : Option Nat := none
  maxConcurrentLookups : Option Nat := none
  scheme : Option Scheme := none
deriving DecidableEq, Repr, Inhabited

namespace Settings

/-- What a request overrides wins; at least one lookup is always allowed. -/
def withOverrides (s : Settings) (o : Overrides) : Settings where
  maxIterations := o.maxIterations.getD s.maxIterations
  maxConcurrentLookups := max (o.maxConcurrentLookups.getD s.maxConcurrentLookups) 1
  scheme := o.scheme.getD s.scheme

/-- The path of the user's settings below the home directory, for a program of this name. -/
def path (program : String) : String :=
  "." ++ program ++ "/config.toml"

end Settings

end Lockstep
