import Lockstep.Resolved.Graph

/-!
# Trees of dependencies and of dependents

A resolved graph is shown as the tree of its paths: below a node stand its
neighbours, except where the node already occurs further up. Drawn, a tree has
one line for each node, with a connector and the bars of the open branches to
its left.
-/

namespace Lockstep

/-- A labelled tree. -/
inductive Tree where
  | node (label : String) (children : List Tree)

namespace Tree

def label : Tree → String
  | node l _ => l

def children : Tree → List Tree
  | node _ cs => cs

/-! ## Drawing -/

mutual

/-- A branch below the given margin; the last one of its siblings closes the margin. -/
def branch (margin : String) (last : Bool) : Tree → String
  | node label children =>
    margin ++ (if last then "└── " else "├── ") ++ label ++ "\n" ++
      branches (margin ++ if last then "    " else "│   ") children

/-- All branches of a node. -/
def branches (margin : String) : List Tree → String
  | [] => ""
  | [t] => branch margin true t
  | t :: u :: rest => branch margin false t ++ branches margin (u :: rest)

end

/-- The label of the root, and the branches below it. -/
def draw (t : Tree) : String :=
  t.label ++ "\n" ++ branches "" t.children

end Tree

namespace ResolvedGraph

/-! ## Dependencies -/

/-- The tree below a node that is reached along the nodes of a path. Branches end at the
greatest depth shown and at nodes of the path. The first argument bounds the length of paths. -/
def subtree (g : ResolvedGraph) (maxDepth : Option Nat) :
    Nat → Nat → List Nat → Nat → String → Tree
  | 0, _, _, _, label => .node label []
  | fuel + 1, depth, path, n, label =>
    if maxDepth.any (· ≤ depth) || path.contains n then .node label []
    else .node label ((g.dependencies n).map fun (m, r) =>
      subtree g maxDepth fuel (depth + 1) (n :: path) m r.label)

/-- The dependencies of the root, down to a depth if one is given. -/
def tree (g : ResolvedGraph) (maxDepth : Option Nat) : Tree :=
  .node g.root.text ((g.dependencies 0).map fun (m, r) =>
    g.subtree maxDepth (g.size + 1) 1 [0] m r.label)

/-! ## Dependents -/

/-- The tree of the dependents of a node that is reached along the nodes of a path. -/
def invertedSubtree (g : ResolvedGraph) : Nat → List Nat → Nat → Tree
  | 0, _, n => .node (g.coordinates n).text []
  | fuel + 1, path, n =>
    .node (g.coordinates n).text <|
      if path.contains n then []
      else (g.dependents n).map fun m => invertedSubtree g fuel (n :: path) m

/-- The dependents of the module that a key names. -/
def invertedTree? (g : ResolvedGraph) (key : String) : Option Tree :=
  (g.node? key).map fun n => g.invertedSubtree (g.size + 2) [] n

end ResolvedGraph

end Lockstep
