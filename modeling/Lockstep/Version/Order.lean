/-!
# Orders on version texts

All that resolution asks of versions is a comparison of their texts. An order
need not be transitive (the segment order of `Version.Segments` is not on all
texts), so what depends on more than the comparison itself says so.
-/

namespace Lockstep

/-- A comparison of version texts. -/
structure VersionOrder where
  compare : String → String → Ordering

namespace VersionOrder

/-- Two texts name the same version. -/
def same (order : VersionOrder) (a b : String) : Bool :=
  order.compare a b == .eq

/-- The later of two versions in a scan: `b` replaces `a` only if it is greater. -/
def later (order : VersionOrder) (a b : String) : String :=
  if order.compare b a = .gt then b else a

/-- The greatest version of a scan from the left, the first one on ties. -/
def maxOf (order : VersionOrder) : List String → Option String
  | [] => none
  | v :: rest => some (rest.foldl order.later v)

/-- One text for each version, the first that names it. -/
def distinct (order : VersionOrder) (versions : List String) : List String :=
  versions.foldl (fun kept v => if kept.any (order.same · v) then kept else kept ++ [v]) []

theorem foldl_later_mem (order : VersionOrder) (v : String) (rest : List String) :
    rest.foldl order.later v ∈ v :: rest := by
  induction rest generalizing v with
  | nil => simp
  | cons w rest ih =>
    rw [List.foldl_cons]
    rcases List.mem_cons.1 (ih (order.later v w)) with h | h
    · rw [h, later]; split <;> simp
    · simp [h]

theorem mem_of_maxOf {order : VersionOrder} {versions : List String} {v : String}
    (h : order.maxOf versions = some v) : v ∈ versions := by
  cases versions with
  | nil => simp [maxOf] at h
  | cons w rest =>
    simp only [maxOf, Option.some.injEq] at h
    exact h ▸ foldl_later_mem order w rest

end VersionOrder

end Lockstep
