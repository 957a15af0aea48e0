import Lockstep.Proofs.Convergence
import Lockstep.Proofs.Honouring
import Lockstep.Proofs.Remembering

/-!
# Where demands come from

A demand on a selected module is an edge that the last round follows, a
constraint that it applies, or remembered (`Rounds.Settles.mem_demands_iff`).
What is remembered was an edge followed or a constraint applied in some round of
the same pass (`Rounds.Meets.exists_arises`), though its source need not be selected
any more.
-/

namespace Lockstep

/-! ## Kinds of demands -/

/-- Demands of this kind come from edges. -/
def DemandKind.isEdge : DemandKind → Bool
  | edge | forcedEdge | preference => true
  | constraint | forcedConstraint => false

namespace Demands

variable {g : CandidateGraph} {guide : Guide} {live : Live} {constraints : SortedSet Constraint}

theorem isEdge_ofEdge (g : CandidateGraph) (edge : Edge) :
    (ofEdge g edge).demand.kind.isEdge = true := by
  unfold ofEdge
  dsimp only
  split
  · rfl
  · split <;> rfl

theorem isEdge_ofConstraint (g : CandidateGraph) (k : Constraint) :
    (ofConstraint g k).demand.kind.isEdge = false := by
  unfold ofConstraint
  dsimp only
  split <;> rfl

/-- What a round gathers comes from an edge that it follows or a constraint that it applies. -/
def Arises (g : CandidateGraph) (live : Live) (guide : Guide) (constraints : SortedSet Constraint)
    (id : ModuleId) (c : Candidate) : Prop :=
  (∃ e edge, g.edge? e = some edge ∧ Live.Follows g live e edge ∧ edge.target = id ∧
      ofEdge g edge = c) ∨
    ∃ k ∈ applied g live guide constraints, waived g k = false ∧ k.target = id ∧
      ofConstraint g k = c

theorem Arises.exists_edge {id : ModuleId} {c : Candidate}
    (h : Arises g live guide constraints id c) (hkind : c.demand.kind.isEdge = true) :
    ∃ e edge, g.edge? e = some edge ∧ Live.Follows g live e edge ∧ edge.target = id ∧
      ofEdge g edge = c := by
  refine h.resolve_right ?_
  rintro ⟨k, -, -, -, rfl⟩
  rw [isEdge_ofConstraint g k] at hkind
  cases hkind

theorem Arises.exists_constraint {id : ModuleId} {c : Candidate}
    (h : Arises g live guide constraints id c) (hkind : c.demand.kind.isEdge = false) :
    ∃ k ∈ applied g live guide constraints, k.target = id ∧ ofConstraint g k = c := by
  rcases h with ⟨e, edge, -, -, -, rfl⟩ | ⟨k, hk, -, htarget, hc⟩
  · rw [isEdge_ofEdge g edge] at hkind
    cases hkind
  · exact ⟨k, hk, htarget, hc⟩

theorem mem_gather_iff (hwalk : walk g guide = some live) {id : ModuleId}
    {set : SortedSet Candidate} (h : (gather g live guide constraints).get? id = some set)
    {c : Candidate} : c ∈ set ↔ Arises g live guide constraints id c := by
  rw [mem_of_get?_gather h]
  refine or_congr ?_ Iff.rfl
  constructor
  · rintro ⟨es, hes, e, he, edge, hedge, hc⟩
    obtain ⟨edge', hedge', htarget, hfollows⟩ := (Live.mem_of_get?_incoming hwalk hes).1 he
    obtain rfl := Option.some.inj (hedge.symm.trans hedge')
    exact ⟨e, edge, hedge, hfollows, htarget, hc⟩
  · rintro ⟨e, edge, hedge, hfollows, rfl, hc⟩
    obtain ⟨es, hes, he⟩ := Live.exists_get?_incoming hwalk hedge hfollows
    exact ⟨es, hes, e, he, edge, hedge, hc⟩

end Demands

namespace Choice

variable {order : VersionOrder} {g : CandidateGraph} {id : ModuleId}

end Choice

/-! ## Demands of a round -/

namespace Rounds

variable {order : VersionOrder} {g : CandidateGraph} {constraints : SortedSet Constraint}
  {r : Rounds} {live : Live} {round : Round}

theorem mem_gathered_iff (hwalk : walk g r.guide = some live) {id : ModuleId}
    {set : SortedSet Candidate} (h : (r.gathered g constraints live).get? id = some set)
    {c : Candidate} :
    c ∈ set ↔ c ∈ r.recalled id ∨ Demands.Arises g live r.guide constraints id c := by
  rw [get?_demands] at h
  obtain ⟨fresh, hfresh, rfl⟩ := Option.map_eq_some_iff.1 h
  rw [SortedSet.mem_union, Demands.mem_gather_iff hwalk hfresh]

/-- Some round has followed the edge or applied the constraint. -/
theorem Meets.exists_arises {id : ModuleId} {c : Candidate}
    (h : Meets order g constraints id c) : ∃ r live, Reached order g constraints r ∧
      walk g r.guide = some live ∧ Demands.Arises g live r.guide constraints id c := by
  obtain ⟨r, live, set, hr, hwalk, hset, hc⟩ := h
  exact ⟨r, live, hr, hwalk, (Demands.mem_gather_iff hwalk hset).1 hc⟩

namespace Settles

variable (h : r.Settles order g constraints live round)

include h

/-- The candidates that a version was selected from. -/
theorem exists_candidates {id : ModuleId} {s : Selection}
    (hs : round.selections.get? id = some s) :
    ∃ set : SortedSet Candidate, s.demands = set.toList.map Candidate.demand ∧
      s.reason = (Choice.select order g id set).reason ∧
      ∀ c, c ∈ set ↔ c ∈ r.recalled id ∨ Demands.Arises g live r.guide constraints id c := by
  rw [h.chosen] at hs
  obtain ⟨set, hset, hchoose⟩ := Round.exists_demands_of_selected hs
  obtain ⟨-, hreason, hdemands, -⟩ := Round.of_choose_eq hchoose
  exact ⟨set, hdemands, hreason, fun c => mem_gathered_iff h.walked hset⟩

/-- Where a demand on a selected module comes from. -/
theorem mem_demands_iff {id : ModuleId} {s : Selection}
    (hs : round.selections.get? id = some s) {d : Demand} : d ∈ s.demands ↔
      ∃ c, c.demand = d ∧
        (c ∈ r.recalled id ∨ Demands.Arises g live r.guide constraints id c) := by
  obtain ⟨set, hdemands, -, hmem⟩ := h.exists_candidates hs
  rw [hdemands, List.mem_map]
  constructor
  · rintro ⟨c, hc, hd⟩
    exact ⟨c, hd, (hmem c).1 hc⟩
  · rintro ⟨c, hd, hc⟩
    exact ⟨c, (hmem c).2 hc, hd⟩

end Settles

end Rounds

/-- The last round of a pass remembers the demand on the module. -/
def Resolution.Recalls (order : VersionOrder) (g : CandidateGraph)
    (constraints : SortedSet Constraint) (res : Resolution) (id : ModuleId) (c : Candidate) :
    Prop :=
  ∃ r live round, Rounds.Reached order g constraints r ∧
    r.Settles order g constraints live round ∧ res = Resolution.ofRound order g live round ∧
    c ∈ r.recalled id

/-- A demand that is remembered has been met in the same pass. -/
theorem Resolution.Recalls.meets {order : VersionOrder} {g : CandidateGraph}
    {constraints : SortedSet Constraint} {res : Resolution} {id : ModuleId} {c : Candidate}
    (h : res.Recalls order g constraints id c) : Rounds.Meets order g constraints id c := by
  obtain ⟨r, live, round, hr, -, -, hc⟩ := h
  exact Rounds.meets_of_recalled hr hc

/-- The pass that a run converges with has a last round. -/
theorem Run.Converges.exists_reached {r : Run} {p : Provider} {it : Iteration} {b : Builder}
    {res : Resolution} (h : r.Converges p it b res) : ∃ last live round,
      Rounds.Reached r.order b.graph it.constraints last ∧
      last.Settles r.order b.graph it.constraints live round ∧
      res = Resolution.ofRound r.order b.graph live round := by
  obtain ⟨rounds, live, round, hrun, rfl⟩ := CandidateGraph.resolvesTo_of_resolve h.resolved
  obtain ⟨last, hlast, hsettles⟩ := Rounds.exists_settles hrun h.errors
  exact ⟨last, live, round, hlast, hsettles, rfl⟩

end Lockstep
