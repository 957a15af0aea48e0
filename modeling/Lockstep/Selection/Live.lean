import Lockstep.Candidate.Graph

/-!
# The live part of a candidate graph

A guide says which version each module is at, as far as that is known. The live
graph is what can be reached from the root when every edge leads to the guided
version of its target, or to its own version where the guide is silent, and
when edges that are excluded on all ways to their source are left out.

It is computed by a walk with a list of pending arrivals. `Walk.arrive` takes
any of them; `walk` takes the oldest first. As in the builder, the exclusions
of a module are those that all ways to it share, and all its live versions are
gone through again when they shrink.
-/

namespace Lockstep

/-- The version that each module is at. -/
abbrev Guide := SortedMap ModuleId String

/-- The version that an edge leads to: the guided one, or else its own. -/
def Edge.version? (e : Edge) (guide : Guide) : Option String :=
  (guide.get? e.target).or e.resolved

/-! ## The walk -/

/-- A walk under way. -/
structure Walk where
  nodes : SortedSet Coordinates := ∅
  /-- For each module reached, the exclusions that every way to it shares so far. -/
  exclusions : SortedMap ModuleId Exclusions := ∅
  /-- Edges reached and not yet taken, with the exclusions of the way to their target. -/
  pending : List (EdgeId × Exclusions) := []
deriving DecidableEq

namespace Walk

/-- The first arrivals: the edges of the root. -/
def start (g : CandidateGraph) : Walk where
  pending := g.rootEdges.filterMap fun e =>
    (g.edge? e).map fun edge => (e, edge.dependency.exclusions)

/-- Ways on from a node whose module has the given exclusions. -/
def onward (g : CandidateGraph) (set : Exclusions) (c : Coordinates) : List (EdgeId × Exclusions) :=
  (g.outgoing c).filterMap fun e => do
    let edge ← g.edge? e
    if set.exclude edge.target then none else some (e, set.union edge.dependency.exclusions)

/-- Takes one arrival. -/
def arrive (g : CandidateGraph) (guide : Guide) (w : Walk) (e : EdgeId) (inherited : Exclusions) :
    Walk :=
  match g.edge? e with
  | none => w
  | some edge =>
    let before := w.exclusions.get? edge.target
    let shared := (before.map (·.inter inherited)).getD inherited
    let narrowed := before ≠ some shared
    let reached := (edge.version? guide).map edge.target.atVersion
    let fresh := reached.toList.filter fun c => !w.nodes.contains c
    let nodes := w.nodes.insertAll fresh
    let expanded := if narrowed then nodes.toList.filter (·.id == edge.target) else fresh
    { nodes
      exclusions := w.exclusions.insert edge.target shared
      pending := w.pending ++ expanded.flatMap (onward g shared) }

/-- Takes the oldest arrival. -/
def step (g : CandidateGraph) (guide : Guide) (w : Walk) : Walk :=
  match w.pending with
  | [] => w
  | (e, inherited) :: rest => { w with pending := rest }.arrive g guide e inherited

/-- Steps until nothing is pending; nothing if that takes more than the given number. -/
def run (g : CandidateGraph) (guide : Guide) : Nat → Walk → Option Walk
  | steps, w =>
    if w.pending.isEmpty then some w
    else match steps with
      | 0 => none
      | steps + 1 => run g guide steps (w.step g guide)

/-- Steps that suffice: each arrival but the first ones follows from a node that is new or
whose module's exclusions shrank, and these can only shrink as often as there are entries. -/
def bound (g : CandidateGraph) : Nat :=
  let entries := g.edges.toList.flatMap (·.dependency.exclusions.toList)
  let outgoing := g.nodes.values.flatMap (·.outgoing)
  g.rootEdges.length + (entries.length + 3) * outgoing.length + 1

end Walk

/-! ## The live graph -/

/-- What a walk has reached. -/
structure Live where
  nodes : SortedSet Coordinates
  /-- For each module reached, the exclusions that every way to it shares. -/
  exclusions : SortedMap ModuleId Exclusions
  /-- For each module, the edges into it that are not excluded. -/
  incoming : SortedMap ModuleId (List EdgeId)
  /-- Edges of live nodes whose target is excluded on every way to them. -/
  excluded : List EdgeId
deriving DecidableEq

namespace Live

/-- The exclusions in force for the edges of a node. -/
def exclusionsOf (exclusions : SortedMap ModuleId Exclusions) (c : Coordinates) : Exclusions :=
  (exclusions.get? c.id).getD ∅

/-- The edges of a node with their targets, and whether each is excluded. -/
def edgesOf (g : CandidateGraph) (exclusions : SortedMap ModuleId Exclusions) (c : Coordinates) :
    List (EdgeId × ModuleId × Bool) :=
  (g.outgoing c).filterMap fun e =>
    (g.edge? e).map fun edge => (e, edge.target, (exclusionsOf exclusions c).exclude edge.target)

/-- The edges of the root with their targets. None is excluded. -/
def rootEdgesOf (g : CandidateGraph) : List (EdgeId × ModuleId × Bool) :=
  g.rootEdges.filterMap fun e => (g.edge? e).map fun edge => (e, edge.target, false)

/-- Adds an edge to those that lead to a module. -/
def addIncoming (m : SortedMap ModuleId (List EdgeId)) (target : ModuleId) (e : EdgeId) :
    SortedMap ModuleId (List EdgeId) :=
  m.alter target fun old => old.getD [] ++ [e]

/-- Divides the edges of the root and of all live nodes into those that lead somewhere and those
that are excluded. -/
def ofWalk (g : CandidateGraph) (w : Walk) : Live :=
  let all := rootEdgesOf g ++ w.nodes.toList.flatMap (edgesOf g w.exclusions)
  { nodes := w.nodes
    exclusions := w.exclusions
    incoming := all.foldl (fun m (e, target, out) => if out then m else addIncoming m target e) ∅
    excluded := all.filterMap fun (e, _, out) => if out then some e else none }

end Live

/-- The live graph under a guide. -/
def walk (g : CandidateGraph) (guide : Guide) : Option Live :=
  ((Walk.start g).run g guide (Walk.bound g)).map (Live.ofWalk g)

end Lockstep
