import Lockstep.Candidate.Graph
import Lockstep.Metadata.Cache

/-!
# Building a candidate graph

The builder expands the dependencies of the root level by level. A level is a
list of arrivals: edges reached with the exclusions of the way to them, and
probes for versions that a constraint names. It first looks up what its
arrivals ask for (`wanted`, `record`), then processes them in order
(`process`), which gives the next level. Probes follow once a level is done,
for constraints on modules that have been reached.

Several ways may lead to a module. In force are the exclusions that all of them
share, so the set of a module only ever shrinks, and when it does, every
version of the module is expanded again.

Missing metadata is recorded on the node. It is an error only if that version
is selected.
-/

namespace Lockstep

/-- Work for one level. -/
inductive Arrival where
  /-- An edge is reached; the exclusions are those of this way to its target. -/
  | edge (e : EdgeId) (exclusions : Exclusions)
  /-- A constraint names a version. -/
  | probe (q : Query)
deriving DecidableEq

/-- A candidate graph under construction. -/
structure Builder where
  graph : CandidateGraph
  /-- For each module reached, the exclusions that every way to it shares. -/
  exclusions : SortedMap ModuleId Exclusions := ∅
  /-- Module versions whose edges are known. -/
  expanded : SortedSet Coordinates := ∅
  /-- The versions that constraints name, in the order in which they were met. -/
  constrained : List Query := []
  probed : SortedSet Query := ∅
  /-- The next level. -/
  queue : List Arrival := []

namespace Builder

/-! ## Lookups -/

/-- What an arrival asks for. -/
def query? (b : Builder) : Arrival → Option Query
  | .edge e _ => (b.graph.edge? e).map Edge.query
  | .probe q => some q

/-- The queries of the level that have not been made yet. -/
def wanted (b : Builder) : SortedSet Query :=
  .ofList ((b.queue.filterMap b.query?).filter fun q => !b.graph.outcomes.contains q)

def record (b : Builder) (q : Query) (answer : Answer) : Builder :=
  { b with graph := b.graph.record q answer }

/-! ## Expansion -/

/-- Queues the outgoing edges of a node that the exclusions of its module let through. -/
def queueOutgoing (b : Builder) (c : Coordinates) : Builder :=
  match b.exclusions.get? c.id with
  | none => b
  | some inherited =>
    let arrival (e : EdgeId) : Option Arrival := do
      let edge ← b.graph.edge? e
      if inherited.exclude edge.target then none
      else some (.edge e (inherited.union edge.dependency.exclusions))
    { b with queue := b.queue ++ (b.graph.outgoing c).filterMap arrival }

/-- The published platforms that a module belongs to, by rules and by its own metadata. -/
def publishedPlatforms (rules : PlatformRules) (root : Coordinates) (d : Descriptor) :
    SortedSet ModuleId :=
  let byRules := (rules.memberships d.id).filterMap fun r =>
    if r.kind = .published then some r.platform else none
  let byMetadata := d.belongsTo.filterMap fun m =>
    if m.kind = .published then some m.platform else none
  .ofList ((byRules ++ byMetadata).filter fun p => p != d.id && p != root.id)

/-- The dependencies of a module version: those it declares, less those on itself and on the
root, then one on each published platform at its own version. -/
def outgoingOf (rules : PlatformRules) (root c : Coordinates) (d : Descriptor) :
    List (Dependency × Bool) :=
  let own := d.dependencies.filter fun dep => dep.target != c.id && dep.target != root.id
  let platforms := (publishedPlatforms rules root d).toList
  own.map (·, false) ++ platforms.map fun p =>
    ({ target := p, requirement := .exact c.version, category := some .platform }, true)

/-- Creates the edges of a node and notes its constraints. Without metadata there are none. -/
def createEdges (rules : PlatformRules) (b : Builder) (c : Coordinates) : Builder :=
  match b.graph.descriptor? c with
  | none => b
  | some d =>
    let (graph, ids) := b.graph.addEdges c (outgoingOf rules b.graph.root c d)
    { b with
      graph := graph.setOutgoing c ids
      constrained := b.constrained ++ d.constraints.map fun k => ⟨k.target, k.requirement⟩ }

/-- Creates the edges of a node on the first visit, and queues them on every visit. -/
def expand (rules : PlatformRules) (b : Builder) (c : Coordinates) : Builder :=
  if b.expanded.contains c then b.queueOutgoing c
  else
    let b := { b with expanded := b.expanded.insert c }
    (createEdges rules b c).queueOutgoing c

/-- Expands a node that has not been expanded yet. -/
def expandNew (rules : PlatformRules) (b : Builder) (c : Coordinates) : Builder :=
  if b.expanded.contains c then b else b.expand rules c

/-! ## Arrivals -/

/-- Takes note of the exclusions of one more way to a module. The flag says that the module is
new or that its set shrank. -/
def offer (b : Builder) (id : ModuleId) (incoming : Exclusions) : Builder × Bool :=
  match b.exclusions.get? id with
  | none => ({ b with exclusions := b.exclusions.insert id incoming }, true)
  | some current =>
    let shared := current.inter incoming
    if shared = current then (b, false)
    else ({ b with exclusions := b.exclusions.insert id shared }, true)

/-- Processes one arrival. -/
def process (rules : PlatformRules) (b : Builder) : Arrival → Builder
  | .edge e incoming =>
    match b.graph.edge? e with
    | none => b
    | some edge =>
      let (b, narrowed) := b.offer edge.target incoming
      let version := b.graph.answer? edge.query
      let b := { b with graph := b.graph.setResolved e version }
      let again := if narrowed then
          ((b.graph.versionsOf edge.target).map Node.coordinates).filter b.expanded.contains
        else []
      let b := again.foldl (expand rules) b
      match version with
      | some v => b.expandNew rules (edge.target.atVersion v)
      | none => b
  | .probe q =>
    match b.graph.answer? q with
    | some v => b.expandNew rules (q.target.atVersion v)
    | none => b

/-- Probes for constraints on modules reached by now, each once. -/
def probes (b : Builder) : Builder :=
  b.constrained.foldl (fun b q =>
    if b.exclusions.contains q.target && !b.probed.contains q then
      { b with probed := b.probed.insert q, queue := b.queue ++ [.probe q] }
    else b) b

/-- Processes a level whose lookups have been made. -/
def advance (rules : PlatformRules) (b : Builder) : Builder :=
  (b.queue.foldl (process rules) { b with queue := [] }).probes

/-! ## Runs -/

/-- The first level: the dependencies of the root, less those on itself. -/
def start (root : Coordinates) (dependencies : List Dependency)
    (constraints : SortedSet Constraint) : Builder :=
  let deps := dependencies.filter (·.target != root.id)
  let (graph, ids) := CandidateGraph.addEdges { root } root (deps.map (·, false))
  { graph := { graph with rootEdges := ids }
    constrained := constraints.toList.map fun c => ⟨c.target, c.requirement⟩
    queue := (ids.zip deps).map fun (e, d) => .edge e d.exclusions }

variable {σ : Type}

/-- Makes some queries and records the answers. -/
def lookUp (lookup : Lookup σ) : List Query → Builder → StateM σ Builder
  | [], b => pure b
  | q :: rest, b => do
    let answer ← lookup q
    lookUp lookup rest (b.record q answer)

/-- One level. -/
def level (lookup : Lookup σ) (rules : PlatformRules) (b : Builder) : StateM σ Builder := do
  let b ← lookUp lookup b.wanted.toList b
  return b.advance rules

/-- Levels until one is empty; nothing if that takes more than the given number of them. -/
def run (lookup : Lookup σ) (rules : PlatformRules) :
    Nat → Builder → StateM σ (Option CandidateGraph)
  | levels, b =>
    if b.queue.isEmpty then pure (some b.graph)
    else match levels with
      | 0 => pure none
      | levels + 1 => do run lookup rules levels (← b.level lookup rules)

end Builder

/-! ## How far a catalog reaches -/

/-- A bound on what the modules of a catalog can bring into a graph. -/
structure Reach where
  /-- Queries that metadata can give rise to. -/
  queries : Nat
  /-- Exclusions that metadata mentions. -/
  exclusions : Nat
deriving Repr

namespace Catalog

/-- The queries that the metadata of a module gives rise to. -/
def queriesOf (rules : PlatformRules) (d : Descriptor) : List Query :=
  d.dependencies.map (fun dep => ⟨dep.target, dep.requirement⟩) ++
    d.constraints.map (fun k => ⟨k.target, k.requirement⟩) ++
    (d.belongsTo.map Membership.platform ++ rules.map PlatformRule.platform).map
      fun p => ⟨p, .exact d.version⟩

def exclusionsOf (d : Descriptor) : List Exclusion :=
  d.dependencies.flatMap (·.exclusions.toList)

/-- Everything that the dependencies, constraints and memberships of a catalog mention. -/
def reach (c : Catalog) (rules : PlatformRules) : Reach where
  queries := (c.modules.flatMap (queriesOf rules)).length
  exclusions := (c.modules.flatMap exclusionsOf).length

end Catalog

/-- Levels that suffice: each but the first follows a node expanded for the first time, a
module whose exclusions shrank, or a probe. -/
def Reach.levels (r : Reach) (dependencies : List Dependency) (constraints : SortedSet Constraint) :
    Nat :=
  let queries := r.queries + dependencies.length + constraints.size
  let exclusions := r.exclusions + (dependencies.flatMap (·.exclusions.toList)).length
  2 + queries * (exclusions + 4)

end Lockstep
