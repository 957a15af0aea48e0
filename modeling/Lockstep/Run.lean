import Lockstep.Candidate.Builder
import Lockstep.Request
import Lockstep.Resolved.Graph

/-!
# Runs: passes until the alignment is stable

A pass builds the candidate graph for a set of constraints, resolves it and
aligns the platforms of the result. The constraints of the next pass are the
declared ones and those of the alignment. A run ends when a pass gives back the
constraints that it was given, or with the errors of a pass, or when the last
pass allowed still changes them.
-/

namespace Lockstep

/-- The input of one pass; numbers start at 1. -/
structure Iteration where
  number : Nat
  constraints : SortedSet Constraint
deriving DecidableEq

/-- The state that a run is in between passes. -/
inductive RunState where
  | initial
  | iterating
  | converged
  | failed
  /-- A bound on the work of a pass was too low. -/
  | unsettled
deriving DecidableEq, Repr

def RunState.name : RunState → String
  | initial => "initial"
  | iterating => "iterating"
  | converged => "converged"
  | failed => "failed"
  | unsettled => "unsettled"

/-- What a pass comes to. -/
inductive Step where
  | converged (graph : ResolvedGraph)
  | iterate (next : Iteration)
  | failed (errors : List ResolveError)
  | unsettled

def Step.state : Step → RunState
  | converged _ => .converged
  | iterate _ => .iterating
  | failed _ => .failed
  | unsettled => .unsettled

/-- How a run ends. -/
inductive Outcome where
  | converged (graph : ResolvedGraph)
  | failed (errors : List ResolveError)
  | unsettled

def Outcome.state : Outcome → RunState
  | converged _ => .converged
  | failed _ => .failed
  | unsettled => .unsettled

/-- What stays the same from pass to pass. -/
structure Run where
  root : Coordinates
  dependencies : List Dependency
  declared : SortedSet Constraint
  rules : PlatformRules
  maxIterations : Nat
  order : VersionOrder
  /-- What the metadata behind the lookups can bring into a graph. -/
  reach : Reach

/-- The request for an outcome of a request once more: every module is forced to its version, and
neither constraints nor settings are given. -/
def Request.again (r : Request) (g : ResolvedGraph) : Request where
  root := r.root
  dependencies := g.toDependencies
  rules := r.rules

namespace Run

/-- A run of a request over a catalog. The request's own settings win. -/
def ofRequest (request : Request) (settings : Settings) (catalog : Catalog) : Run :=
  let settings := settings.withOverrides request.overrides
  { root := request.root
    dependencies := request.dependencies
    declared := request.declared
    rules := request.rules
    maxIterations := settings.maxIterations
    order := settings.scheme.order
    reach := catalog.reach request.rules }

/-- The first pass has the declared constraints only. -/
def initial (r : Run) : Iteration :=
  ⟨1, r.declared⟩

variable {σ : Type}

/-- The candidate graph of a pass. -/
def build (lookup : Lookup σ) (r : Run) (constraints : SortedSet Constraint) :
    StateM σ (Option CandidateGraph) :=
  (Builder.start r.root r.dependencies constraints).run lookup r.rules
    (r.reach.levels r.dependencies constraints)

/-- The constraints after a pass with this alignment. -/
def next (r : Run) (a : Alignment) : SortedSet Constraint :=
  r.declared.union a.constraints

/-- What follows from a resolution and its alignment. -/
def conclude (r : Run) (it : Iteration) (g : CandidateGraph) (res : Resolution) (a : Alignment) :
    Step :=
  if r.next a = it.constraints then
    match misaligned r.order g res a.platforms with
    | [] => .converged (.ofResolution g res a.platforms it.number)
    | e :: es => .failed (e :: es)
  else if max r.maxIterations 1 ≤ it.number then
    .failed [.noConvergence it.number ((r.next a).symmDiff it.constraints).toList]
  else .iterate ⟨it.number + 1, r.next a⟩

/-- Aligns a resolution, unless it has errors. -/
def ofResolution (r : Run) (it : Iteration) (g : CandidateGraph) (res : Resolution) : Step :=
  match res.errors with
  | e :: es => .failed (e :: es)
  | [] =>
    let a := align r.order g r.rules res
    match a.errors with
    | e :: es => .failed (e :: es)
    | [] => r.conclude it g res a

/-- Resolves and aligns a candidate graph. -/
def ofGraph (r : Run) (it : Iteration) (g : CandidateGraph) : Step :=
  match resolve r.order g it.constraints with
  | none => .unsettled
  | some res => r.ofResolution it g res

/-- One pass. -/
def step (lookup : Lookup σ) (r : Run) (it : Iteration) : StateM σ Step := do
  match ← r.build lookup it.constraints with
  | none => return .unsettled
  | some g => return r.ofGraph it g

/-- Passes from an iteration on, at most so many. -/
def go (lookup : Lookup σ) (r : Run) : Nat → Iteration → StateM σ Outcome
  | 0, _ => pure .unsettled
  | passes + 1, it => do
    match ← r.step lookup it with
    | .converged g => return .converged g
    | .iterate next => go lookup r passes next
    | .failed errors => return .failed errors
    | .unsettled => return .unsettled

/-- The whole run. No pass beyond the last one allowed is ever asked for. -/
def run (lookup : Lookup σ) (r : Run) : StateM σ Outcome :=
  r.go lookup (max r.maxIterations 1) r.initial

end Run

end Lockstep
