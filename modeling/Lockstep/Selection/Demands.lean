import Lockstep.Selection.Demand
import Lockstep.Selection.Live

/-!
# The demands on each live module

Every edge into a module of the live graph is a demand on it, and so is every
constraint: those that live modules publish and those of the pass. Constraints
add demands only to modules that some edge reaches.
-/

namespace Lockstep

/-- The candidates of each module. -/
abbrev Demands := SortedMap ModuleId (SortedSet Candidate)

namespace Demands

/-! ## Edges -/

/-- The reason that an edge has no version. -/
def edgeShortfall (g : CandidateGraph) (edge : Edge) : Shortfall :=
  match g.outcome? edge.query with
  | some (.error u) => .unmatched u
  | _ => .unfollowed edge.query

def ofEdge (g : CandidateGraph) (edge : Edge) : Candidate where
  demand :=
    { requester := edge.source.text
      requirement := edge.dependency.requirement
      kind :=
        if edge.dependency.forced then .forcedEdge
        else if edge.dependency.requirement.isPrefer then .preference
        else .edge }
  outcome := match edge.resolved with
    | some v => .ok v
    | none => .error (edgeShortfall g edge)

/-- The demands that edges make. -/
def ofEdges (g : CandidateGraph) (live : Live) : Demands :=
  live.incoming.mapValues fun _ edges => .ofList ((edges.filterMap g.edge?).map (ofEdge g))

/-! ## Constraints -/

/-- The version that a constraint asks for, or the reason that there is none. -/
def constraintOutcome (g : CandidateGraph) (c : Constraint) : Except Shortfall String :=
  match g.outcome? ⟨c.target, c.requirement⟩ with
  | some (.ok v) => .ok v
  | some (.error u) => .error (.unmatched u)
  | none => .error (.unasked c)

def ofConstraint (g : CandidateGraph) (c : Constraint) : Candidate where
  demand :=
    { requester := c.source.text
      requirement := c.requirement
      kind := if c.forced then .forcedConstraint else .constraint }
  outcome := constraintOutcome g c

/-- Alignment by no force does not ask for a version that its target does not publish. -/
def waived (g : CandidateGraph) (c : Constraint) : Bool :=
  !c.forced && c.source.platform?.isSome &&
    ((ofConstraint g c).version?.bind fun v => g.descriptor? (c.target.atVersion v)).isNone

/-- Adds the demand of a constraint, if its target is there. -/
def addConstraint (g : CandidateGraph) (demands : Demands) (c : Constraint) : Demands :=
  if waived g c then demands
  else demands.modify c.target fun set => set.insert (ofConstraint g c)

/-- The constraints of a live module are forced if it is an enforced platform, or if a live
edge that leads to this version asks for it as one. -/
def enforces (g : CandidateGraph) (live : Live) (guide : Guide) (c : Coordinates) (d : Descriptor) :
    Bool :=
  d.forcesConstraints || ((live.incoming.get? c.id).getD []).any fun e =>
    match g.edge? e with
    | some edge =>
      edge.dependency.category == some .enforcedPlatform && edge.version? guide == some c.version
    | none => false

/-- The constraints that a live module publishes. -/
def published (g : CandidateGraph) (live : Live) (guide : Guide) (c : Coordinates) :
    List Constraint :=
  match g.descriptor? c with
  | none => []
  | some d =>
    d.constraints.map fun k =>
      { k.asConstraint (.published c) with forced := enforces g live guide c d }

/-- All demands on the modules of a live graph. -/
def gather (g : CandidateGraph) (live : Live) (guide : Guide) (constraints : SortedSet Constraint) :
    Demands :=
  (live.nodes.toList.flatMap (published g live guide) ++ constraints.toList).foldl
    (addConstraint g) (ofEdges g live)

end Demands

end Lockstep
