import Lockstep.Selection.Demands
import Lockstep.Selection.Error
import Lockstep.Selection.Reason

/-!
# Choosing a version

The candidates of a module decide its version, by the strongest kind among
them: forced edges, then enforced constraints, then other edges and
constraints, then preferences.

Forced demands have to agree. Of the others the highest version wins, unless a
range refuses it and the candidate graph has a version that all ranges accept.
-/

namespace Lockstep

/-- The version chosen for a module, if any, and the error met on the way. -/
structure Choice where
  version : Option String
  reason : Reason
  error : Option ResolveError
deriving DecidableEq

namespace Choice

/-- No version, for the first reason that some candidate gives. -/
def unresolved (id : ModuleId) (candidates : List Candidate) : Choice where
  version := none
  reason := .default
  error :=
    let cause := match candidates.findSome? Candidate.shortfall? with
      | some s => .shortfall s
      | none => .undemanded
    some (.unresolved (.identity id) (candidates.map Candidate.demand) cause)

/-- The versions that candidates came to. -/
def versions (candidates : List Candidate) : List String :=
  candidates.filterMap Candidate.version?

/-- Demands that have to agree. If they do not, the highest version stands next to the error. -/
def agreed (order : VersionOrder) (id : ModuleId) (candidates : List Candidate) (reason : Reason)
    (conflict : List Party → ResolveError) : Choice :=
  let distinct := order.distinct (versions candidates)
  match order.maxOf distinct with
  | none => unresolved id candidates
  | some best =>
    { version := some best
      reason
      error :=
        if 1 < distinct.length then some (conflict (candidates.map fun c => .demand c.demand))
        else none }

/-- Ranges that edges ask for and no published version is in. -/
def unmatchedRanges (candidates : List Candidate) : List Candidate :=
  candidates.filter fun c =>
    c.demand.kind == .edge && c.demand.requirement.isRange && c.version?.isNone

/-- All ranges among the demands accept the version. -/
def inAllRanges (order : VersionOrder) (candidates : List Candidate) (v : String) : Bool :=
  candidates.all fun c => !c.demand.requirement.isRange || c.demand.requirement.accepts order v

/-- The highest version of the candidate graph with metadata that all ranges accept. -/
def highestInRanges (order : VersionOrder) (g : CandidateGraph) (id : ModuleId)
    (candidates : List Candidate) : Option String :=
  let recorded := (g.versionsOf id).filterMap fun n =>
    n.finding.descriptor?.map fun _ => n.coordinates.version
  order.maxOf (recorded.filter (inAllRanges order candidates))

/-- The highest version that the candidates came to, or one that all their ranges accept. -/
def highest (order : VersionOrder) (g : CandidateGraph) (id : ModuleId)
    (candidates : List Candidate) : Choice :=
  match order.maxOf (versions candidates) with
  | none => unresolved id candidates
  | some top =>
    match unmatchedRanges candidates with
    | u :: us => { unresolved id (u :: us) with version := some top, reason := .conflictResolved }
    | [] =>
      let narrowed := if inAllRanges order candidates top then none
        else highestInRanges order g id candidates
      let best := narrowed.getD top
      let fromEdge := candidates.any fun c =>
        c.demand.kind != .constraint && c.version?.any (order.same · best)
      { version := some best
        reason :=
          if narrowed.isSome ||
              (fromEdge && 1 < (order.distinct (versions candidates)).length) then
            .conflictResolved
          else if fromEdge then .default
          else .byConstraint
        error := none }

/-- The candidates of some kinds. -/
def ofKinds (kinds : List DemandKind) (candidates : SortedSet Candidate) : List Candidate :=
  candidates.toList.filter (kinds.contains ·.demand.kind)

/-- The choice for a module, by the strongest kind of demand on it. -/
def select (order : VersionOrder) (g : CandidateGraph) (id : ModuleId)
    (candidates : SortedSet Candidate) : Choice :=
  match ofKinds [.forcedEdge] candidates with
  | f :: fs => agreed order id (f :: fs) .forced (.versionConflict id)
  | [] =>
    match ofKinds [.forcedConstraint] candidates with
    | f :: fs => agreed order id (f :: fs) .byConstraint (.constraintConflict id)
    | [] =>
      match ofKinds [.edge, .constraint] candidates with
      | p :: ps => highest order g id (p :: ps)
      | [] => highest order g id (ofKinds [.preference] candidates)

end Choice

end Lockstep
