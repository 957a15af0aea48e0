import Lockstep.Alignment

/-!
# Resolved graphs

The outcome of a run: the selected modules, a report on every edge, and links
between modules along the edges that were not excluded. Between two modules
there is one link at most, for the first such edge reported once both are
known.

Nodes are numbered in the order in which they were added; the root is number 0
and is not one of the modules.
-/

namespace Lockstep

/-- A selected module. -/
structure ResolvedModule where
  id : ModuleId
  version : String
  reason : Reason
deriving DecidableEq, Repr

def ResolvedModule.coordinates (m : ResolvedModule) : Coordinates :=
  m.id.atVersion m.version

/-- What became of an edge. -/
structure EdgeReport where
  source : Coordinates
  target : ModuleId
  requested : String
  selected : Option String
  status : EdgeStatus
  reason : Reason
  forced : Bool := false
  /-- Added for membership of a published platform. -/
  synthetic : Bool := false
deriving DecidableEq, Repr

/-- The request, with the version that overrode it, and marks for what is special about it. -/
def EdgeReport.label (r : EdgeReport) : String :=
  let selected := if r.status = .overridden then r.selected else none
  r.target.text ++ ":" ++ r.requested ++ ((selected.map (" -> " ++ ·)).getD "") ++
    (if r.forced then " (forced)" else "") ++ (if r.synthetic then " (platform)" else "")

/-- A connection between two nodes, and the number of the report that it stands for. -/
structure Link where
  source : Nat
  target : Nat
  report : Nat
deriving DecidableEq, Repr

/-- The outcome of a run. -/
structure ResolvedGraph where
  root : Coordinates
  /-- The modules in the order in which they were added; node `n + 1` is the module at `n`. -/
  added : Array ResolvedModule := #[]
  /-- The node of each module. -/
  numbers : SortedMap ModuleId Nat := ∅
  reports : Array EdgeReport := #[]
  links : List Link := []
  platforms : List AlignedPlatform := []
  conflicts : ConflictReport := []
  /-- Passes that the run took. -/
  iterations : Nat := 0

namespace ResolvedGraph

/-! ## Views -/

/-- The selected modules, by identity. -/
def modules (g : ResolvedGraph) : List ResolvedModule :=
  g.numbers.values.filterMap fun n => g.added[n - 1]?

def size (g : ResolvedGraph) : Nat :=
  g.added.size

def contains (g : ResolvedGraph) (id : ModuleId) : Bool :=
  g.numbers.contains id

def versionOf? (g : ResolvedGraph) (id : ModuleId) : Option String := do
  let n ← g.numbers.get? id
  return (← g.added[n - 1]?).version

/-- The coordinates of a node. -/
def coordinates (g : ResolvedGraph) : Nat → Coordinates
  | 0 => g.root
  | n + 1 => ((g.added[n]?).map ResolvedModule.coordinates).getD g.root

/-- The node that the source of an edge stands for. -/
def sourceNode? (g : ResolvedGraph) (c : Coordinates) : Option Nat :=
  if c = g.root then some 0 else g.numbers.get? c.id

/-- Modules that were excluded and are not selected. -/
def excluded (g : ResolvedGraph) : SortedSet ModuleId :=
  .ofList ((g.reports.toList.filter fun r => r.status = .excluded && !g.contains r.target).map
    EdgeReport.target)

/-! ## Growth -/

/-- Adds a module, unless one of its identity is there. -/
def addModule (g : ResolvedGraph) (m : ResolvedModule) : ResolvedGraph :=
  if g.contains m.id then g
  else { g with added := g.added.push m, numbers := g.numbers.insert m.id (g.added.size + 1) }

/-- Two nodes are linked. -/
def linked (g : ResolvedGraph) (source target : Nat) : Bool :=
  g.links.any fun l => l.source == source && l.target == target

/-- The link that a report calls for: between known nodes, not excluded, and not there yet. -/
def newLink? (g : ResolvedGraph) (r : EdgeReport) : Option Link := do
  if r.status = .excluded then none
  else
    let source ← g.sourceNode? r.source
    let target ← g.numbers.get? r.target
    if g.linked source target then none else some { source, target, report := g.reports.size }

/-- Reports an edge, and links its ends if that is called for. -/
def addEdge (g : ResolvedGraph) (r : EdgeReport) : ResolvedGraph :=
  { g with reports := g.reports.push r, links := g.links ++ (g.newLink? r).toList }

/-- The report on an edge of a candidate graph. -/
def report? (g : CandidateGraph) (o : EdgeOutcome) : Option EdgeReport :=
  (g.edge? o.edge).map fun edge =>
    { source := edge.source
      target := edge.target
      requested := edge.dependency.requirement.text
      selected := o.selected
      status := o.status
      reason := o.reason
      forced := edge.dependency.forced
      synthetic := edge.synthetic }

/-- The outcome of a run whose last pass came to this resolution. -/
def ofResolution (g : CandidateGraph) (r : Resolution) (platforms : List AlignedPlatform)
    (iterations : Nat) : ResolvedGraph :=
  let modules := r.selections.entries.map fun (id, s) =>
    { id, version := s.version, reason := s.reason }
  let withModules := modules.foldl addModule { root := g.root }
  let withEdges := (r.edges.filterMap (report? g)).foldl addEdge withModules
  { withEdges with platforms, conflicts := r.conflicts, iterations }

/-! ## Resolving again -/

/-- The outcome as dependencies of the root: every module forced to its version, without the
modules that were excluded. -/
def toDependencies (g : ResolvedGraph) : List Dependency :=
  let exclusions : Exclusions := .ofList (g.excluded.toList.map Exclusion.ofModule)
  g.modules.map fun m =>
    { target := m.id, requirement := .exact m.version, forced := true, exclusions }

/-! ## Neighbours -/

/-- Links out of a node with their reports, by target and request. -/
def dependencies (g : ResolvedGraph) (n : Nat) : List (Nat × EdgeReport) :=
  let out := (g.links.filter (·.source == n)).filterMap fun l =>
    (g.reports[l.report]?).map fun r => (l.target, r)
  let earlier (a b : Nat × EdgeReport) : Bool :=
    (compareLex (compareOn EdgeReport.target) (compareOn EdgeReport.requested) a.2 b.2).isLE
  sortBy earlier out

/-- Nodes with a link to a node, by coordinates; of equal ones, the one linked last comes first. -/
def dependents (g : ResolvedGraph) (n : Nat) : List Nat :=
  sortBy (fun a b => (compare (g.coordinates a) (g.coordinates b)).isLE)
    ((g.links.filter (·.target == n)).reverse.map Link.source)

/-- The node that a key names: an identity, or just a name, which stands for the first module
of that name. -/
def node? (g : ResolvedGraph) (key : String) : Option Nat :=
  match ModuleId.ofString? key with
  | some id => g.numbers.get? id
  | none => (g.numbers.entries.find? fun (id, _) => id.name == key).map Prod.snd

end ResolvedGraph

end Lockstep
