import Lockstep.Proofs.Caching
import Lockstep.Proofs.Consistency
import Lockstep.Proofs.Ending

/-!
# Runs that converge

A run over a catalog converges with a pass that resolves and aligns without
errors, gives back the constraints that it was given and has no member astray
(`Run.exists_converges`). If it is not the first pass, the run allows itself
more than one.
-/

namespace Lockstep

/-- The order of versions that a request is resolved with. -/
def Request.order (request : Request) (settings : Settings) : VersionOrder :=
  (settings.withOverrides request.overrides).scheme.order

def Outcome.graph? : Outcome → Option ResolvedGraph
  | converged g => some g
  | _ => none

theorem Outcome.eq_of_graph? {o : Outcome} {g : ResolvedGraph} (h : o.graph? = some g) :
    o = .converged g := by
  cases o with
  | converged g' => exact congrArg converged (Option.some.inj h)
  | failed errors => cases h
  | unsettled => cases h

/-- A resolution of a finished builder's graph is consistent unless it has errors. -/
theorem Task.Finished.consistent {t : Task} {b : Builder} (hb : t.Finished b) {order : VersionOrder}
    {res : Resolution} (hres : resolve order b.graph t.constraints = some res)
    (herrors : res.errors = []) : res.Consistent order b.graph := by
  obtain ⟨rounds, live, round, hrun, rfl⟩ := CandidateGraph.resolvesTo_of_resolve hres
  obtain ⟨r, -, hsettles⟩ := Rounds.exists_settles hrun herrors
  exact hsettles.consistent hb.tidy.arena

namespace Run

variable {r : Run} {p : Provider} {it : Iteration} {b : Builder} {g : CandidateGraph}
  {res : Resolution} {G : ResolvedGraph}

/-- A pass that a run converges with. -/
structure Converges (r : Run) (p : Provider) (it : Iteration) (b : Builder) (res : Resolution) :
    Prop where
  finished : (r.task p it.constraints).Finished b
  resolved : resolve r.order b.graph it.constraints = some res
  errors : res.errors = []
  aligned : (align r.order b.graph r.rules res).errors = []
  stable : r.next (align r.order b.graph r.rules res) = it.constraints
  placed : misaligned r.order b.graph res (align r.order b.graph r.rules res).platforms = []

/-- The graph that a pass with this resolution comes to. -/
def graphOf (r : Run) (it : Iteration) (g : CandidateGraph) (res : Resolution) : ResolvedGraph :=
  .ofResolution g res (align r.order g r.rules res).platforms it.number

/-! ## Passes -/

/-- A pass without errors goes by its alignment. -/
theorem ofGraph_eq (hres : resolve r.order g it.constraints = some res) (herrors : res.errors = [])
    (haligned : (align r.order g r.rules res).errors = []) :
    r.ofGraph it g = r.conclude it g res (align r.order g r.rules res) := by
  unfold ofGraph
  rw [hres]
  change r.ofResolution it g res = _
  unfold ofResolution
  rw [herrors]
  dsimp only
  rw [haligned]

theorem ofGraph_of_converges (h : r.Converges p it b res) :
    r.ofGraph it b.graph = .converged (r.graphOf it b.graph res) := by
  rw [ofGraph_eq h.resolved h.errors h.aligned]
  unfold conclude
  rw [if_pos h.stable, h.placed]
  rfl

theorem converges_of_ofGraph (hb : (r.task p it.constraints).Finished b)
    (h : r.ofGraph it b.graph = .converged G) :
    ∃ res, r.Converges p it b res ∧ G = r.graphOf it b.graph res := by
  unfold ofGraph at h
  split at h
  · cases h
  · next res hres =>
    unfold ofResolution at h
    split at h
    · cases h
    · next herrors =>
      dsimp only at h
      split at h
      · cases h
      · next haligned =>
        unfold conclude at h
        split at h
        · next hstable =>
          split at h
          · next hplaced =>
            refine ⟨res, ⟨hb, hres, herrors, haligned, hstable, hplaced⟩, ?_⟩
            exact (Step.converged.inj h).symm
          · cases h
        · split at h <;> cases h

/-- There is another pass only as long as the run allows for one; its constraints are those after an
alignment. -/
theorem eq_of_iterate {next : Iteration} (h : r.ofGraph it g = .iterate next) :
    it.number < max r.maxIterations 1 ∧
      ∃ res, next = ⟨it.number + 1, r.next (align r.order g r.rules res)⟩ := by
  unfold ofGraph at h
  split at h
  · cases h
  · next res _ =>
    unfold ofResolution at h
    split at h
    · cases h
    · dsimp only at h
      split at h
      · cases h
      · unfold conclude at h
        split at h
        · split at h <;> cases h
        · split at h
          · cases h
          · next hle => exact ⟨Nat.lt_of_not_le hle, res, (Step.iterate.inj h).symm⟩

/-- After a pass that follows, one pass less is left. -/
theorem exists_left_of_iterate {next : Iteration} (h : r.ofGraph it g = .iterate next) {n : Nat}
    (hn : it.number + n = max r.maxIterations 1) :
    ∃ m, n = m + 1 ∧ next.number + m = max r.maxIterations 1 := by
  obtain ⟨hlt, res, rfl⟩ := eq_of_iterate h
  obtain ⟨m, rfl⟩ := Nat.exists_eq_add_one_of_ne_zero (n := n) (by omega)
  exact ⟨m, rfl, by dsimp only; omega⟩

/-! ## Runs over a catalog -/

section

variable {catalog : Catalog} {order : VersionOrder} (hreach : r.reach = catalog.reach r.rules)

include hreach

/-- The first of the passes to go is that over the graph of a finished builder. -/
theorem exists_pass (order : VersionOrder) (it : Iteration) :
    ∃ b, (r.task (catalog.provider order) it.constraints).Finished b ∧ ∀ passes,
      ((r.go (catalog.provider order).lookup (passes + 1) it).run ()).1 =
        match r.ofGraph it b.graph with
        | .converged g => .converged g
        | .iterate next => ((r.go (catalog.provider order).lookup passes next).run ()).1
        | .failed errors => .failed errors
        | .unsettled => .unsettled := by
  obtain ⟨b, hb, hbuild⟩ := exists_finished order hreach it.constraints ()
  refine ⟨b, hb, fun passes => ?_⟩
  have hstep : ((r.step (catalog.provider order).lookup it).run ()).1 = r.ofGraph it b.graph := by
    rw [step_run, hbuild]
  rw [go_succ_run]
  cases hpass : r.ofGraph it b.graph
  all_goals
    rw [hpass] at hstep
    rw [hstep]

theorem exists_converges_of_go (passes : Nat) (it : Iteration)
    (h : ((r.go (catalog.provider order).lookup passes it).run ()).1 = .converged G) :
    ∃ last b res, r.Converges (catalog.provider order) last b res ∧
      G = r.graphOf last b.graph res ∧ (last = it ∨ it.number < max r.maxIterations 1) := by
  induction passes generalizing it with
  | zero => cases h
  | succ passes ih =>
      obtain ⟨b, hb, hgo⟩ := exists_pass hreach order it
      rw [hgo] at h
      cases hpass : r.ofGraph it b.graph with
      | unsettled =>
          rw [hpass] at h
          cases h
      | failed errors =>
          rw [hpass] at h
          cases h
      | converged g =>
          rw [hpass] at h
          obtain ⟨res, hconverges, heq⟩ := converges_of_ofGraph hb hpass
          exact ⟨it, b, res, hconverges, (Outcome.converged.inj h).symm.trans heq, Or.inl rfl⟩
      | iterate next =>
          rw [hpass] at h
          obtain ⟨last, b', res, hconverges, heq, -⟩ := ih next h
          exact ⟨last, b', res, hconverges, heq, Or.inr (eq_of_iterate hpass).1⟩

/-- If all passes come to the same constraints, the first or the second one converges. -/
theorem exists_converges_of_passes (order : VersionOrder) (next : SortedSet Constraint)
    (hpass : ∀ k b, (r.task (catalog.provider order) k).Finished b → ∃ res,
      resolve r.order b.graph k = some res ∧ res.errors = [] ∧
      (align r.order b.graph r.rules res).errors = [] ∧
      r.next (align r.order b.graph r.rules res) = next ∧
      misaligned r.order b.graph res (align r.order b.graph r.rules res).platforms = [])
    (hmore : next = r.initial.constraints ∨ 1 < max r.maxIterations 1) :
    ∃ last b res, r.Converges (catalog.provider order) last b res ∧
      ((r.run (catalog.provider order).lookup).run ()).1 =
        .converged (r.graphOf last b.graph res) := by
  obtain ⟨b, hb, hgo⟩ := exists_pass hreach order r.initial
  obtain ⟨res, hres, herrors, haligned, hnext, hplaced⟩ := hpass _ b hb
  unfold run
  by_cases hstable : next = r.initial.constraints
  · have hconverges : r.Converges (catalog.provider order) r.initial b res :=
      ⟨hb, hres, herrors, haligned, hnext.trans hstable, hplaced⟩
    obtain ⟨n, hn⟩ := Nat.exists_eq_add_of_le' (Nat.le_max_right r.maxIterations 1)
    refine ⟨r.initial, b, res, hconverges, ?_⟩
    rw [hn, hgo, ofGraph_of_converges hconverges]
  · have hlt := hmore.resolve_left hstable
    have hiterate : r.ofGraph r.initial b.graph = .iterate ⟨2, next⟩ := by
      rw [ofGraph_eq hres herrors haligned]
      unfold conclude
      rw [hnext, if_neg hstable]
      exact if_neg (Nat.not_le_of_lt hlt)
    obtain ⟨b', hb', hgo'⟩ := exists_pass hreach order ⟨2, next⟩
    obtain ⟨res', hres', herrors', haligned', hnext', hplaced'⟩ := hpass _ b' hb'
    have hconverges : r.Converges (catalog.provider order) ⟨2, next⟩ b' res' :=
      ⟨hb', hres', herrors', haligned', hnext', hplaced'⟩
    obtain ⟨n, hn⟩ := Nat.exists_eq_add_of_le' hlt
    refine ⟨⟨2, next⟩, b', res', hconverges, ?_⟩
    rw [hn, hgo, hiterate]
    dsimp only
    rw [hgo', ofGraph_of_converges hconverges]

end

/-- A run that converges does so with some pass, which is the first one unless the run allows for
more. -/
theorem exists_converges {request : Request} {settings : Settings} {catalog : Catalog}
    (h : request.resolveOver settings catalog = .converged G) :
    ∃ it b res, (ofRequest request settings catalog).Converges
        (catalog.provider (ofRequest request settings catalog).order) it b res ∧
      G = (ofRequest request settings catalog).graphOf it b.graph res ∧
      (it = (ofRequest request settings catalog).initial ∨
        1 < max (ofRequest request settings catalog).maxIterations 1) := by
  rw [Request.resolveOver_eq] at h
  exact exists_converges_of_go rfl _ _ h

/-! ## What a run that converges has found -/

namespace Converges

variable {catalog : Catalog} (h : r.Converges (catalog.provider r.order) it b res)

include h

theorem consistent : res.Consistent r.order b.graph :=
  h.finished.consistent h.resolved h.errors

theorem exists_told {id : ModuleId} {v : String} (hv : res.versionOf? id = some v) :
    ∃ d, b.graph.finding? (id.atVersion v) = some (.found d) := by
  obtain ⟨d, hd⟩ := h.consistent.described id v hv
  exact ⟨d, CandidateGraph.descriptor?_eq_some_iff.1 hd⟩

/-- Selected versions are published. -/
theorem exists_published {id : ModuleId} {v : String} (hv : res.versionOf? id = some v) :
    ∃ d ∈ catalog.published id, d.version = v := by
  obtain ⟨d, hd⟩ := h.exists_told hv
  obtain ⟨hmem, hcoordinates⟩ := Catalog.mem_of_tells (h.finished.tells hd)
  refine ⟨d, List.mem_filter.2 ⟨hmem, ?_⟩, congrArg Coordinates.version hcoordinates⟩
  exact beq_iff_eq.2 (congrArg Coordinates.id hcoordinates)

/-- The rounds of the pass have a last one, and the builder has provided for it. -/
theorem exists_last : ∃ (last : Rounds) (live : Live) (round : Round),
    last.Settles r.order b.graph it.constraints live round ∧ last.Provided b.graph ∧
      res = Resolution.ofRound r.order b.graph live round := by
  obtain ⟨rounds, live, round, hrun, rfl⟩ := CandidateGraph.resolvesTo_of_resolve h.resolved
  obtain ⟨last, hlast, hsettles⟩ := Rounds.exists_settles hrun h.errors
  refine ⟨last, live, round, hsettles, ?_, rfl⟩
  exact Rounds.provided_of_reached h.finished.tidy.arena.coordinates h.finished.coverage hlast

end Converges

end Run

end Lockstep
