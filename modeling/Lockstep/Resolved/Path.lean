import Lockstep.Resolved.Graph

/-!
# Ways from the root to a module

A depth-first search for the first path from the root to a node. A node that
has been left without success is not entered again.
-/

namespace Lockstep

namespace ResolvedGraph

/-- Searches from a node, given the nodes entered before; returns the path found, if any, and
all nodes entered by then. The depth of the search is bounded by the first argument. -/
def search (g : ResolvedGraph) (target : Nat) : Nat → Nat → List Nat → Option (List Nat) × List Nat
  | 0, _, entered => (none, entered)
  | depth + 1, n, entered =>
    if n = target then (some [n], entered)
    else if entered.contains n then (none, entered)
    else
      let (found, entered) := (g.dependencies n).foldl (fun (found, entered) (m, _) =>
        match found with
        | some path => (some path, entered)
        | none => search g target depth m entered) (none, n :: entered)
      (found.map (n :: ·), entered)

/-- The nodes on the way from the root to the module that a key names. -/
def path? (g : ResolvedGraph) (key : String) : Option (List Coordinates) := do
  let target ← g.node? key
  let path ← (g.search target (g.size + 2) 0 []).1
  return path.map g.coordinates

end ResolvedGraph

end Lockstep
