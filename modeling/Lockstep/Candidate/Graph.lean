import Lockstep.Metadata.Provider

/-!
# Candidate graphs

Before a version is chosen for any module, the candidate graph records every
version that some edge or constraint asks for. Its nodes are module versions,
found or missing; its edges lead from a module version to a module, whatever
the version, and are numbered in the order in which they were met. Cycles are
allowed.
-/

namespace Lockstep

/-! ## Missing metadata -/

/-- Why a version has no metadata. -/
inductive Miss where
  | absent
  | unavailable (outage : Outage)
deriving DecidableEq, Repr

def Miss.text : Miss → String
  | absent => "no metadata found"
  | unavailable o => o.text

/-- No version answers a query. -/
structure Unmatched where
  query : Query
  miss : Miss
deriving DecidableEq, Repr

def Unmatched.text (u : Unmatched) : String :=
  "no version of " ++ u.query.target.text ++ " matches " ++ u.query.requirement.text ++
    " (" ++ u.miss.text ++ ")"

/-! ## Nodes and edges -/

/-- What is known of a module version. -/
inductive Finding where
  | found (descriptor : Descriptor)
  | missing (miss : Miss)
deriving DecidableEq

def Finding.descriptor? : Finding → Option Descriptor
  | found d => some d
  | missing _ => none

def Finding.miss? : Finding → Option Miss
  | found _ => none
  | missing m => some m

/-- Edges go by number. -/
abbrev EdgeId := Nat

/-- A module version that may be selected. -/
structure Node where
  coordinates : Coordinates
  finding : Finding
  /-- Outgoing edges, known once the node has been expanded. -/
  outgoing : List EdgeId := []
deriving DecidableEq

/-- A dependency of a module version. -/
structure Edge where
  id : EdgeId
  source : Coordinates
  dependency : Dependency
  /-- The version that answers the requirement, once the edge has been followed. -/
  resolved : Option String := none
  /-- Added for membership of a published platform, not declared by the module. -/
  synthetic : Bool := false
deriving DecidableEq

def Edge.target (e : Edge) : ModuleId :=
  e.dependency.target

def Edge.query (e : Edge) : Query :=
  ⟨e.dependency.target, e.dependency.requirement⟩

/-! ## Graphs -/

/-- Every version that may be selected, and every edge between them. -/
structure CandidateGraph where
  root : Coordinates
  rootEdges : List EdgeId := []
  nodes : SortedMap Coordinates Node := ∅
  edges : Array Edge := #[]
  /-- What each query made came to: a version, or the reason that there is none. -/
  outcomes : SortedMap Query (Except Unmatched String) := ∅

namespace CandidateGraph

def edge? (g : CandidateGraph) (e : EdgeId) : Option Edge :=
  g.edges[e]?

def node? (g : CandidateGraph) (c : Coordinates) : Option Node :=
  g.nodes.get? c

/-- The metadata of a node that has some. -/
def descriptor? (g : CandidateGraph) (c : Coordinates) : Option Descriptor :=
  (g.node? c).bind (·.finding.descriptor?)

/-- The nodes of a module, by the text of the version. -/
def versionsOf (g : CandidateGraph) (id : ModuleId) : List Node :=
  g.nodes.values.filter (·.coordinates.id == id)

def outcome? (g : CandidateGraph) (q : Query) : Option (Except Unmatched String) :=
  g.outcomes.get? q

/-- The version that answers a query already made. -/
def answer? (g : CandidateGraph) (q : Query) : Option String :=
  match g.outcome? q with
  | some (.ok v) => some v
  | _ => none

def outgoing (g : CandidateGraph) (c : Coordinates) : List EdgeId :=
  ((g.node? c).map Node.outgoing).getD []

/-! ### Growth -/

/-- Records a module version; what was recorded first stays. -/
def addNode (g : CandidateGraph) (c : Coordinates) (f : Finding) : CandidateGraph :=
  { g with nodes := g.nodes.insertNew c { coordinates := c, finding := f } }

/-- Adds an edge under the next free number. -/
def addEdge (g : CandidateGraph) (source : Coordinates) (d : Dependency) (synthetic : Bool) :
    CandidateGraph :=
  { g with edges := g.edges.push { id := g.edges.size, source, dependency := d, synthetic } }

/-- Adds edges with consecutive numbers, which are returned in order. -/
def addEdges (g : CandidateGraph) (source : Coordinates) :
    List (Dependency × Bool) → CandidateGraph × List EdgeId
  | [] => (g, [])
  | (d, synthetic) :: rest =>
    let (g', ids) := (g.addEdge source d synthetic).addEdges source rest
    (g', g.edges.size :: ids)

def setOutgoing (g : CandidateGraph) (c : Coordinates) (out : List EdgeId) : CandidateGraph :=
  { g with nodes := g.nodes.modify c fun n => { n with outgoing := out } }

def setResolved (g : CandidateGraph) (e : EdgeId) (version : Option String) : CandidateGraph :=
  { g with edges := g.edges.modify e fun edge => { edge with resolved := version } }

/-- Records the answer to a query. Without a descriptor, a query that names a version makes
that version a node without metadata, and any other query has no version. -/
def record (g : CandidateGraph) (q : Query) (answer : Answer) : CandidateGraph :=
  let settle (g : CandidateGraph) (outcome : Except Unmatched String) : CandidateGraph :=
    { g with outcomes := g.outcomes.insert q outcome }
  let lack (miss : Miss) : CandidateGraph :=
    match q.requirement.version? with
    | some v => settle (g.addNode (q.target.atVersion v) (.missing miss)) (.ok v)
    | none => settle g (.error ⟨q, miss⟩)
  match answer with
  | .ok (some d) => settle (g.addNode (q.target.atVersion d.version) (.found d)) (.ok d.version)
  | .ok none => lack .absent
  | .error outage => lack (.unavailable outage)

end CandidateGraph

end Lockstep
