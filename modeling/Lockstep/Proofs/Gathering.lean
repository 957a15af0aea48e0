import Lockstep.Proofs.Live
import Lockstep.Selection.Resolution

/-!
# The demands on live modules

A module is demanded if and only if an edge leads to it, and its candidates are
those of the edges into it and of the constraints on it that are not waived
(`mem_of_get?_gather`). A round adds what is remembered of the same modules
(`mem_of_get?_demands`) and chooses for each module by itself.
-/

namespace Lockstep

namespace Demands

variable {g : CandidateGraph} {guide : Guide} {live : Live} {constraints : SortedSet Constraint}

/-! ## Constraints -/

/-- The constraints of a list that add a candidate to a module. -/
def constraining (g : CandidateGraph) (id : ModuleId) (cs : List Constraint) : List Constraint :=
  cs.filter fun k => !waived g k && k.target == id

theorem get?_addConstraint (g : CandidateGraph) (demands : Demands) (k : Constraint)
    (id : ModuleId) : (addConstraint g demands k).get? id =
      (demands.get? id).map fun set =>
        set.insertAll ((constraining g id [k]).map (ofConstraint g)) := by
  unfold addConstraint constraining
  by_cases hwaived : waived g k = true
  · rw [if_pos hwaived, List.filter_cons_of_neg (by simp [hwaived])]
    exact Option.map_id'.symm
  · rw [if_neg hwaived, SortedMap.get?_modify]
    by_cases hid : id = k.target
    · rw [if_pos hid, List.filter_cons_of_pos (by simp [hwaived, hid])]
      rfl
    · have hid' : ¬k.target = id := fun h => hid h.symm
      rw [if_neg hid, List.filter_cons_of_neg (by simp [hid'])]
      exact Option.map_id'.symm

theorem get?_foldl_addConstraint (g : CandidateGraph) (cs : List Constraint) (demands : Demands)
    (id : ModuleId) : (cs.foldl (addConstraint g) demands).get? id =
      (demands.get? id).map fun set =>
        set.insertAll ((constraining g id cs).map (ofConstraint g)) := by
  induction cs generalizing demands with
  | nil => exact Option.map_id'.symm
  | cons k rest ih =>
      rw [List.foldl_cons, ih, get?_addConstraint, Option.map_map]
      congr 1
      funext set
      have hsplit : constraining g id (k :: rest) =
          constraining g id [k] ++ constraining g id rest := List.filter_append [k] rest
      rw [hsplit, List.map_append]
      exact List.foldl_append.symm

/-- A constraint calls for the version that answers it. -/
theorem version?_ofConstraint (g : CandidateGraph) (k : Constraint) :
    (ofConstraint g k).version? = g.answer? ⟨k.target, k.requirement⟩ := by
  unfold ofConstraint constraintOutcome Candidate.version? CandidateGraph.answer?
  rcases g.outcome? ⟨k.target, k.requirement⟩ with _ | _ | _ <;> rfl

/-! ## All demands -/

/-- The constraints that a round applies: those of live modules and those of the pass. -/
def applied (g : CandidateGraph) (live : Live) (guide : Guide)
    (constraints : SortedSet Constraint) : List Constraint :=
  live.nodes.toList.flatMap (published g live guide) ++ constraints.toList

theorem get?_gather (g : CandidateGraph) (live : Live) (guide : Guide)
    (constraints : SortedSet Constraint) (id : ModuleId) :
    (gather g live guide constraints).get? id = (live.incoming.get? id).map fun es =>
      (SortedSet.ofList ((es.filterMap g.edge?).map (ofEdge g))).insertAll
        ((constraining g id (applied g live guide constraints)).map (ofConstraint g)) := by
  unfold gather ofEdges
  rw [get?_foldl_addConstraint, SortedMap.get?_mapValues, Option.map_map]
  rfl

/-- A module is demanded if an edge leads to it. -/
theorem contains_gather (g : CandidateGraph) (live : Live) (guide : Guide)
    (constraints : SortedSet Constraint) (id : ModuleId) :
    (gather g live guide constraints).contains id = live.incoming.contains id := by
  unfold SortedMap.contains
  rw [get?_gather, Option.isSome_map]

/-- The candidates of a module come from the edges into it and the constraints on it. -/
theorem mem_of_get?_gather {id : ModuleId} {set : SortedSet Candidate}
    (h : (gather g live guide constraints).get? id = some set) {c : Candidate} : c ∈ set ↔
      (∃ es, live.incoming.get? id = some es ∧ ∃ e ∈ es, ∃ edge, g.edge? e = some edge ∧
        ofEdge g edge = c) ∨
      ∃ k ∈ applied g live guide constraints, waived g k = false ∧ k.target = id ∧
        ofConstraint g k = c := by
  rw [get?_gather] at h
  obtain ⟨es, hes, rfl⟩ := Option.map_eq_some_iff.1 h
  rw [SortedSet.mem_insertAll, SortedSet.mem_ofList, or_comm]
  refine or_congr ?_ ?_
  · rw [List.mem_map]
    constructor
    · rintro ⟨edge, hedge, rfl⟩
      obtain ⟨e, he, hedge⟩ := List.mem_filterMap.1 hedge
      exact ⟨es, hes, e, he, edge, hedge, rfl⟩
    · rintro ⟨es', hes', e, he, edge, hedge, rfl⟩
      rw [hes] at hes'
      obtain rfl := Option.some.inj hes'
      exact ⟨edge, List.mem_filterMap.2 ⟨e, he, hedge⟩, rfl⟩
  · unfold constraining
    rw [List.mem_map]
    constructor
    · rintro ⟨k, hk, rfl⟩
      obtain ⟨hk, hcond⟩ := List.mem_filter.1 hk
      rw [Bool.and_eq_true, Bool.not_eq_true', beq_iff_eq] at hcond
      exact ⟨k, hk, hcond.1, hcond.2, rfl⟩
    · rintro ⟨k, hk, hwaived, htarget, rfl⟩
      refine ⟨k, List.mem_filter.2 ⟨hk, ?_⟩, rfl⟩
      rw [Bool.and_eq_true, Bool.not_eq_true', beq_iff_eq]
      exact ⟨hwaived, htarget⟩

/-- A constraint is applied if the pass has it or a live module with metadata publishes it. -/
theorem mem_applied {k : Constraint} : k ∈ applied g live guide constraints ↔
    k ∈ constraints ∨ ∃ c ∈ live.nodes, ∃ d, g.descriptor? c = some d ∧ ∃ k' ∈ d.constraints,
      k = { k'.asConstraint (.published c) with forced := enforces g live guide c d } := by
  unfold applied
  rw [List.mem_append, or_comm, List.mem_flatMap]
  refine or_congr Iff.rfl (exists_congr fun c => and_congr_right fun _ => ?_)
  unfold published
  cases g.descriptor? c with
  | none => simp
  | some d =>
      rw [List.mem_map]
      constructor
      · rintro ⟨k', hk', rfl⟩
        exact ⟨d, rfl, k', hk', rfl⟩
      · rintro ⟨d', hd', k', hk', rfl⟩
        obtain rfl := Option.some.inj hd'
        exact ⟨k', hk', rfl⟩

end Demands

/-! ## Rounds -/

namespace Rounds

variable {order : VersionOrder} {g : CandidateGraph} {constraints : SortedSet Constraint}
  {r : Rounds}

/-- The states that the rounds over a graph may come to. -/
inductive Reached (order : VersionOrder) (g : CandidateGraph) (constraints : SortedSet Constraint) :
    Rounds → Prop
  | first : Reached order g constraints {}
  | again {r next : Rounds} : Reached order g constraints r →
    r.step order g constraints = some (.again next) → Reached order g constraints next

/-- The round that a round leads to, unless it is the last. -/
def following (progress : Option Progress) : Option Rounds :=
  match progress with
  | some (.again next) => some next
  | _ => none

theorem following_eq_some_iff {progress : Option Progress} {next : Rounds} :
    following progress = some next ↔ progress = some (.again next) := by
  rcases progress with _ | next' | _ <;> simp [following]

/-- The round that so many rounds lead to, unless one of them is the last. -/
def after (order : VersionOrder) (g : CandidateGraph) (constraints : SortedSet Constraint) :
    Nat → Rounds → Option Rounds
  | 0, r => some r
  | rounds + 1, r =>
    (following (r.step order g constraints)).bind (after order g constraints rounds)

theorem reached_of_after {order : VersionOrder} {g : CandidateGraph}
    {constraints : SortedSet Constraint} {rounds : Nat} {r last : Rounds}
    (hr : Reached order g constraints r) (h : r.after order g constraints rounds = some last) :
    Reached order g constraints last := by
  induction rounds generalizing r with
  | zero => exact Option.some.inj h ▸ hr
  | succ rounds ih =>
      obtain ⟨next, hnext, hlast⟩ := Option.bind_eq_some_iff.1 h
      exact ih (hr.again (following_eq_some_iff.1 hnext)) hlast

/-- What remembered demands a module has. -/
def recalled (r : Rounds) (id : ModuleId) : SortedSet Candidate :=
  match r.remembered with
  | some memory => (memory.get? id).getD ∅
  | none => ∅

theorem get?_demands (r : Rounds) (fresh : Demands) (id : ModuleId) :
    (r.demands fresh).get? id = (fresh.get? id).map fun set => (r.recalled id).union set := by
  unfold demands recalled
  cases r.remembered with
  | none =>
      dsimp only
      cases fresh.get? id with
      | none => rfl
      | some set =>
          refine congrArg some (SortedSet.ext fun c => ?_)
          rw [SortedSet.mem_union]
          exact ⟨Or.inr, fun h => h.resolve_left (SortedSet.not_mem_empty c)⟩
  | some memory => exact SortedMap.get?_mapValues _ _ _

/-- All demands that a round with this live graph chooses from. -/
abbrev gathered (g : CandidateGraph) (constraints : SortedSet Constraint) (r : Rounds)
    (live : Live) : Demands :=
  r.demands (.gather g live r.guide constraints)

theorem contains_gathered (r : Rounds) (g : CandidateGraph) (constraints : SortedSet Constraint)
    (live : Live) (id : ModuleId) :
    (r.gathered g constraints live).contains id = live.incoming.contains id := by
  rw [← Demands.contains_gather g live r.guide constraints id]
  unfold SortedMap.contains
  rw [get?_demands, Option.isSome_map]

/-- A round walks, gathers and chooses; then it is the last one or says how to go on. -/
theorem step_eq (order : VersionOrder) (g : CandidateGraph) (constraints : SortedSet Constraint)
    (r : Rounds) {live : Live} (h : walk g r.guide = some live) :
    r.step order g constraints = some
      (if (Round.ofDemands order g (r.gathered g constraints live)).guide =
            (r.guide.filter fun id _ => (r.gathered g constraints live).contains id) ∧
          r.learns (.gather g live r.guide constraints) = false then
        .settled live (Round.ofDemands order g (r.gathered g constraints live))
      else .again (r.next (r.gathered g constraints live)
        (Round.ofDemands order g (r.gathered g constraints live)).guide)) := by
  unfold step
  rw [h]
  dsimp only [Option.bind_eq_bind, Option.bind_some]
  split <;> rfl

/-- What every round preserves holds of the last one. -/
theorem run_induction {P : Rounds → Prop}
    (hstep : ∀ r next, P r → r.step order g constraints = some (.again next) → P next)
    {rounds : Nat} {live : Live} {round : Round} (h : P r)
    (hrun : r.run order g constraints rounds = some (live, round)) :
    ∃ r, P r ∧ r.step order g constraints = some (.settled live round) := by
  induction rounds generalizing r with
  | zero => cases hrun
  | succ rounds ih =>
      unfold run at hrun
      cases hs : r.step order g constraints with
      | none =>
          rw [hs] at hrun
          cases hrun
      | some progress =>
          rw [hs] at hrun
          cases progress with
          | again next => exact ih (hstep r next h hs) hrun
          | settled live' round' =>
              obtain ⟨rfl, rfl⟩ := Prod.mk.inj (Option.some.inj hrun)
              exact ⟨r, h, hs⟩

end Rounds

end Lockstep
