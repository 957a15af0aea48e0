import Lockstep.Coordinates
import Lockstep.Selection.Reason

/-!
# Version conflicts

A conflict is a demand that did not get a version it asked for. A report lists
the conflicts of a resolution.
-/

namespace Lockstep

/-- A demand that was overridden. -/
structure Conflict where
  target : ModuleId
  requester : String
  requested : String
  resolved : String
  reason : Reason
deriving DecidableEq, Repr

def Conflict.text (c : Conflict) : String :=
  c.target.text ++ " requested " ++ c.requested ++ " but resolved " ++ c.resolved ++ " (" ++
    c.reason.name ++ ", by " ++ c.requester ++ ")"

/-- The conflicts of a resolution, in order. -/
abbrev ConflictReport := List Conflict

namespace ConflictReport

def forModule (r : ConflictReport) (id : ModuleId) : List Conflict :=
  r.filter (·.target == id)

/-- One line for each conflict below a headline, or one sentence if there is none. -/
def text (r : ConflictReport) : String :=
  if r.isEmpty then "No version conflicts."
  else "Version conflicts (" ++ toString r.length ++ "):\n" ++
    String.join (r.map fun c => "  " ++ c.text ++ "\n")

end ConflictReport

end Lockstep
