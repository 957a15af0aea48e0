import Lockstep.Conflict
import Lockstep.Selection.Choice
import Lockstep.Sorted.List

/-!
# Resolutions

A resolution gives every live module one version. Since the versions decide
what is live, they are found in rounds: walk the candidate graph under the
present guide, gather the demands on what is live, choose versions, and take
those as the next guide, until a round chooses what it was guided by.

Choices may go round in circles. From the first choice seen before, demands are
remembered from round to round, and the guide only ever gains modules.
-/

namespace Lockstep

/-- The version of a module, and the demands that it was chosen from. -/
structure Selection where
  version : String
  reason : Reason
  /-- Some demand asks for another version. -/
  conflicted : Bool
  demands : List Demand
deriving DecidableEq

/-- What one round chooses. -/
structure Round where
  selections : SortedMap ModuleId Selection
  errors : List ResolveError
deriving DecidableEq

namespace Round

/-- A chosen version has to be a node with metadata. -/
def missing (g : CandidateGraph) (id : ModuleId) (demands : List Demand) (v : String) :
    Option ResolveError :=
  let c := id.atVersion v
  match g.node? c with
  | none => some (.unresolved (.version c) demands .unfetched)
  | some n => n.finding.miss?.map fun m => .unresolved (.version c) demands (.missing m)

/-- The errors and the selection of one module. -/
def choose (order : VersionOrder) (g : CandidateGraph) (id : ModuleId)
    (candidates : SortedSet Candidate) : List ResolveError × Option Selection :=
  let choice := Choice.select order g id candidates
  let demands := candidates.toList.map Candidate.demand
  match choice.version with
  | none => (choice.error.toList, none)
  | some v =>
    (choice.error.toList ++ (missing g id demands v).toList,
      some
        { version := v
          reason := choice.reason
          conflicted := demands.any fun d => !d.requirement.accepts order v
          demands })

/-- The choices for all modules with demands. -/
def ofDemands (order : VersionOrder) (g : CandidateGraph) (demands : Demands) : Round :=
  let choices := demands.mapValues (choose order g)
  { selections := choices.entries.foldl (fun m (id, _, s) => match s with
      | some s => m.insert id s
      | none => m) ∅
    errors := choices.values.flatMap Prod.fst }

/-- The guide that a round gives to the next one. -/
def guide (r : Round) : Guide :=
  r.selections.mapValues fun _ s => s.version

end Round

/-! ## Rounds -/

/-- What is carried from round to round. -/
structure Rounds where
  guide : Guide := ∅
  /-- The guides chosen so far, the last one first. -/
  history : List Guide := []
  /-- All demands since the choices began to repeat, once they have. -/
  remembered : Option Demands := none

/-- A round goes on or is the last one. -/
inductive Progress where
  | again (next : Rounds)
  | settled (live : Live) (round : Round)

namespace Rounds

/-- The demands of a round together with those remembered for the same modules. -/
def withMemory (memory fresh : Demands) : Demands :=
  fresh.mapValues fun id set => ((memory.get? id).getD ∅).union set

/-- Some demand is not remembered yet. -/
def grew (memory fresh : Demands) : Bool :=
  fresh.entries.any fun (id, set) => set.any fun c => !((memory.get? id).getD ∅).contains c

/-- The demands that a round chooses from. -/
def demands (r : Rounds) (fresh : Demands) : Demands :=
  match r.remembered with
  | some memory => withMemory memory fresh
  | none => fresh

/-- The round meets a demand that is to be remembered and is not yet. -/
def learns (r : Rounds) (fresh : Demands) : Bool :=
  match r.remembered with
  | some memory => grew memory fresh
  | none => false

/-- What the next round starts from, if this one is not the last. -/
def next (r : Rounds) (demands : Demands) (chosen : Guide) : Rounds :=
  match r.remembered with
  | some memory =>
    { r with
      guide := r.guide.override chosen
      remembered := some (memory.override demands) }
  | none =>
    { guide := chosen
      history := chosen :: r.history
      remembered := if chosen ∈ r.history then some demands else none }

/-- One round. -/
def step (order : VersionOrder) (g : CandidateGraph) (constraints : SortedSet Constraint)
    (r : Rounds) : Option Progress := do
  let live ← walk g r.guide
  let fresh := Demands.gather g live r.guide constraints
  let demands := r.demands fresh
  let round := Round.ofDemands order g demands
  let current := r.guide.filter fun id _ => demands.contains id
  if round.guide = current ∧ r.learns fresh = false then return .settled live round
  else return .again (r.next demands round.guide)

/-- Rounds until one is the last; nothing if that takes more than the given number. -/
def run (order : VersionOrder) (g : CandidateGraph) (constraints : SortedSet Constraint) :
    Nat → Rounds → Option (Live × Round)
  | 0, _ => none
  | rounds + 1, r =>
    match r.step order g constraints with
    | none => none
    | some (.settled live round) => some (live, round)
    | some (.again next) => run order g constraints rounds next

/-- Rounds that suffice: there are only so many guides to choose before one repeats, and from
then on every round but the last adds a demand. -/
def bound (g : CandidateGraph) (constraints : SortedSet Constraint) : Nat :=
  let ids : SortedSet ModuleId := .ofList (g.nodes.keys.map Coordinates.id)
  let guides := ids.toList.foldl (fun n id => n * ((g.versionsOf id).length + 1)) 1
  let descriptors := g.nodes.values.filterMap (·.finding.descriptor?)
  let published := descriptors.flatMap (·.constraints)
  guides + 2 * (g.edges.size + constraints.size + published.length) + 4

end Rounds

/-! ## The outcome -/

/-- What became of an edge of the root or of a selected module. -/
structure EdgeOutcome where
  edge : EdgeId
  status : EdgeStatus
  selected : Option String
  reason : Reason
deriving DecidableEq, Repr

/-- The outcome of conflict resolution on a candidate graph. -/
structure Resolution where
  selections : SortedMap ModuleId Selection
  /-- The outcome of each edge of the root and of the live modules, by number. -/
  edges : List EdgeOutcome
  conflicts : ConflictReport
  errors : List ResolveError
  /-- The live graph that the selections were made on. -/
  live : Live
deriving DecidableEq

namespace Resolution

def versionOf? (r : Resolution) (id : ModuleId) : Option String :=
  (r.selections.get? id).map Selection.version

def isOk (r : Resolution) : Bool :=
  r.errors.isEmpty

/-- The outcomes of the edges into a module. -/
def taken (order : VersionOrder) (g : CandidateGraph) (s : Selection) (edges : List EdgeId) :
    List EdgeOutcome :=
  edges.filterMap fun e => (g.edge? e).map fun edge =>
    { edge := e
      status :=
        if edge.dependency.requirement.accepts order s.version then .honored else .overridden
      selected := some s.version
      reason := s.reason }

def outcomes (order : VersionOrder) (g : CandidateGraph) (live : Live) (round : Round) :
    List EdgeOutcome :=
  let taken := live.incoming.entries.flatMap fun (target, edges) =>
    match round.selections.get? target with
    | some s => taken order g s edges
    | none => []
  let excluded := live.excluded.map fun e =>
    { edge := e, status := .excluded, selected := none, reason := .byAncestorExclusion }
  sortBy (fun a b => a.edge ≤ b.edge) (taken ++ excluded)

/-- Every demand that asks for another version than the selected one. -/
def conflictsOf (order : VersionOrder) (round : Round) : ConflictReport :=
  round.selections.entries.flatMap fun (id, s) =>
    (s.demands.filter fun d => !d.requirement.accepts order s.version).map fun d =>
      { target := id
        requester := d.requester
        requested := d.requirement.text
        resolved := s.version
        reason := s.reason }

def ofRound (order : VersionOrder) (g : CandidateGraph) (live : Live) (round : Round) :
    Resolution where
  selections := round.selections
  edges := outcomes order g live round
  conflicts := conflictsOf order round
  errors := round.errors
  live := live

end Resolution

/-- One version for every module that is reached from the root; nothing if the rounds do not
come to an end. -/
def resolve (order : VersionOrder) (g : CandidateGraph) (constraints : SortedSet Constraint) :
    Option Resolution :=
  (Rounds.run order g constraints (Rounds.bound g constraints) {}).map fun (live, round) =>
    Resolution.ofRound order g live round

end Lockstep
