import Lockstep.Proofs.Convergence
import Lockstep.Proofs.Flights
import Lockstep.Proofs.Passes
import Mathlib.Data.List.Dedup

/-!
# Runs with the lookups of a level side by side

The lookups of a level are served in some order, and their answers come in in
some order (`Service`). What a run comes to goes by neither
(`Run.Executes.sound`): a provider says the same of a version whatever it is
asked (`Provider.Steady`), so answers may be recorded in any order
(`Builder.recordJoined_eq`), and no query is made twice in a pass. Hence a run
behind a cache comes to what it comes to without, and the cache passes each query
on once (`Request.transparent`).
-/

namespace Lockstep

/-! ## Answers in any order -/

namespace CandidateGraph

variable {p : Provider}

theorem outcomes_record_comm (p : Provider) (g : CandidateGraph) (q q' : Query) :
    ((g.record q (p q)).record q' (p q')).outcomes =
      ((g.record q' (p q')).record q (p q)).outcomes := by
  refine SortedMap.ext fun k => ?_
  show outcome? _ k = outcome? _ k
  simp only [outcome?_record]
  by_cases h : k = q
  · by_cases h' : k = q'
    · simp [← h, ← h']
    · rw [if_pos h, if_neg h', if_pos h]
  · rw [if_neg h, if_neg h]

/-- Two answers that come to the same version say the same of it. -/
theorem nodes_record_comm (hsteady : p.Steady) (g : CandidateGraph) (q q' : Query) :
    ((g.record q (p q)).record q' (p q')).nodes = ((g.record q' (p q')).record q (p q)).nodes := by
  refine SortedMap.ext fun c => ?_
  show node? _ c = node? _ c
  simp only [node?_record]
  by_cases h : outcomeOf q (p q) = .ok c.version ∧ q.target = c.id
  · by_cases h' : outcomeOf q' (p q') = .ok c.version ∧ q'.target = c.id
    · have hsame : findingOf (p q) = findingOf (p q') :=
        hsteady c _ _ ⟨q, h.2, Provider.answer?_eq_some_iff.2 h.1, rfl⟩
          ⟨q', h'.2, Provider.answer?_eq_some_iff.2 h'.1, rfl⟩
      rw [if_pos h, if_pos h', if_pos h, if_pos h', hsame]
    · rw [if_pos h, if_neg h', if_pos h, if_neg h']
  · rw [if_neg h, if_neg h]

theorem record_comm (hsteady : p.Steady) (g : CandidateGraph) (q q' : Query) :
    (g.record q (p q)).record q' (p q') = (g.record q' (p q')).record q (p q) := by
  have hnodes := nodes_record_comm hsteady g q q'
  have houtcomes := outcomes_record_comm p g q q'
  obtain ⟨n₁, h₁⟩ := exists_record_eq g q (p q)
  obtain ⟨n₂, h₂⟩ := exists_record_eq (g.record q (p q)) q' (p q')
  obtain ⟨n₃, h₃⟩ := exists_record_eq g q' (p q')
  obtain ⟨n₄, h₄⟩ := exists_record_eq (g.record q' (p q')) q (p q)
  rw [h₂, h₄] at hnodes houtcomes ⊢
  dsimp only at hnodes houtcomes
  rw [hnodes, houtcomes, h₁, h₃]

end CandidateGraph

namespace Builder

variable {p : Provider} {rules : PlatformRules} {b : Builder}

/-- Records answers as they come in. -/
def recordJoined (joined : List (Query × Answer)) (b : Builder) : Builder :=
  joined.foldl (fun b e => b.record e.1 e.2) b

theorem recordJoined_eq (hsteady : p.Steady) {joined : List (Query × Answer)} {keys : List Query}
    (h : joined.Perm (keys.map fun q => (q, p q))) (b : Builder) :
    b.recordJoined joined = b.recordAll p keys := by
  have hcomm : ∀ e ∈ joined, ∀ e' ∈ joined, ∀ b : Builder,
      (b.record e.1 e.2).record e'.1 e'.2 = (b.record e'.1 e'.2).record e.1 e.2 := by
    intro e he e' he' b
    obtain ⟨q, -, rfl⟩ := List.mem_map.1 (h.mem_iff.1 he)
    obtain ⟨q', -, rfl⟩ := List.mem_map.1 (h.mem_iff.1 he')
    exact congrArg (fun graph => { b with graph }) (CandidateGraph.record_comm hsteady b.graph q q')
  unfold recordJoined recordAll
  rw [h.foldl_eq' hcomm b, List.foldl_map]

theorem recordJoined_cons (e : Query × Answer) (joined : List (Query × Answer)) (b : Builder) :
    b.recordJoined (e :: joined) = (b.record e.1 e.2).recordJoined joined := rfl

theorem lookUp_eq_recordJoined {σ : Type} (lookup : Lookup σ) (keys : List Query) (b : Builder)
    (s : σ) : (lookUp lookup keys b).run s =
      (b.recordJoined (lookup.answers keys s).1, (lookup.answers keys s).2) := by
  induction keys generalizing b s with
  | nil => rfl
  | cons q rest ih =>
      rw [Lookup.answers_cons, recordJoined_cons]
      exact ih (b.record q ((lookup q).run s).1) ((lookup q).run s).2

/-! ### Outcomes stay -/

theorem outcome?_expand (rules : PlatformRules) (b : Builder) (c : Coordinates) (q : Query) :
    (b.expand rules c).graph.outcome? q = b.graph.outcome? q := by
  have hqueue : ∀ b : Builder, (b.queueOutgoing c).graph = b.graph := by
    intro b
    unfold queueOutgoing
    split <;> rfl
  unfold expand
  split
  · rw [hqueue]
  · rw [hqueue, createEdges_eq]
    simp

theorem outcome?_expandNew (rules : PlatformRules) (b : Builder) (c : Coordinates) (q : Query) :
    (b.expandNew rules c).graph.outcome? q = b.graph.outcome? q := by
  unfold expandNew
  split
  · rfl
  · exact outcome?_expand rules b c q

theorem outcome?_foldl_expand (rules : PlatformRules) (cs : List Coordinates) (b : Builder)
    (q : Query) : (cs.foldl (expand rules) b).graph.outcome? q = b.graph.outcome? q := by
  induction cs generalizing b with
  | nil => rfl
  | cons c rest ih => rw [List.foldl_cons, ih, outcome?_expand]

theorem outcome?_process (rules : PlatformRules) (b : Builder) (a : Arrival) (q : Query) :
    (b.process rules a).graph.outcome? q = b.graph.outcome? q := by
  unfold process
  split
  · split
    · rfl
    · next e incoming edge _ =>
      rw [offer_eq]
      dsimp only
      split
      · rw [outcome?_expandNew, outcome?_foldl_expand]
        rfl
      · rw [outcome?_foldl_expand]
        rfl
  · split
    · exact outcome?_expandNew rules b _ q
    · rfl

/-- Once a query has come to something, it stays at that for the rest of the build. -/
theorem outcome?_advance (rules : PlatformRules) (b : Builder) (q : Query) :
    (b.advance rules).graph.outcome? q = b.graph.outcome? q := by
  have hfold : ∀ (todo : List Arrival) (b : Builder),
      (todo.foldl (process rules) b).graph.outcome? q = b.graph.outcome? q := by
    intro todo
    induction todo with
    | nil => exact fun b => rfl
    | cons a rest ih =>
        intro b
        rw [List.foldl_cons, ih, outcome?_process]
  unfold advance
  rw [graph_probes]
  exact hfold b.queue { b with queue := [] }

end Builder

/-! ## Services -/

/-- How the lookups of a level may go: for the queries of the level and a state before it, the order
in which the lookups begin, the answers as they come in, and the state after it. -/
abbrev Service (σ : Type) :=
  List Query → σ → List Query → List (Query × Answer) → σ → Prop

/-- The lookups of a bare provider, in any order. -/
def Provider.serves (p : Provider) : Service Unit := fun keys _ begun joined _ =>
  begun.Perm keys ∧ joined.Perm (keys.map fun q => (q, p q))

/-- The lookups of a provider behind a cache, in any interleaving. Beside the cache, the state has
what the provider has been asked. -/
def Cache.serves (p : Provider) (permits : Nat) : Service (Cache × List Query) :=
  fun keys s begun joined s' =>
    (Flight.launch keys s.1 s.2).Lands p permits s'.1 s'.2 begun joined

/-- In the states of an invariant, which may go by the lookups made before, a service makes every
lookup of a level and gives the answers of a provider. -/
def Service.AnswersFor {σ : Type} (serve : Service σ) (p : Provider) (I : List Query → σ → Prop) :
    Prop :=
  ∀ ⦃keys before s begun joined s'⦄, keys.Nodup → I before s → serve keys s begun joined s' →
    begun.Perm keys ∧ joined.Perm (keys.map fun q => (q, p q)) ∧ I (before ++ begun) s'

/-- A service may go as some lookup does, one query after the other; the lookup sees a part of the
state. -/
def Service.Allows {σ τ : Type} (serve : Service σ) (lookup : Lookup τ) (view : σ → τ) : Prop :=
  ∀ keys s, ∃ s', view s' = (lookup.answers keys (view s)).2 ∧
    serve keys s keys (lookup.answers keys (view s)).1 s'

theorem Provider.answersFor_serves (p : Provider) : p.serves.AnswersFor p fun _ _ => True := by
  intro keys before s begun joined s' _ _ h
  exact ⟨h.1, h.2, trivial⟩

theorem Cache.answersFor_serves (p : Provider) (permits : Nat) :
    (Cache.serves p permits).AnswersFor p fun before s => s.1.Balanced p s.2 before [] [] := by
  intro keys before s begun joined s' hkeys hbalanced hlands
  obtain ⟨hafter, hbegun, hjoined⟩ := Flight.balanced_of_lands hbalanced hkeys hlands
  exact ⟨hbegun, hjoined, hafter⟩

theorem Provider.allows_lookup (p : Provider) : p.serves.Allows p.lookup id := by
  intro keys s
  refine ⟨(), rfl, .refl _, ?_⟩
  have hanswers : (p.lookup.answers keys ()).1 = keys.map fun q => (q, p q) := by
    induction keys with
    | nil => rfl
    | cons q rest ih => rw [Lookup.answers_cons, List.map_cons, ← ih]; rfl
  exact .of_eq hanswers

theorem Cache.allows_lookup (p : Provider) (permits : Nat) :
    (Cache.serves p permits).Allows (Cache.lookup p) Prod.fst := by
  intro keys s
  obtain ⟨asked', hlands⟩ := Flight.exists_lands_answers p permits keys s.1 s.2 [] []
  exact ⟨(((Cache.lookup p).answers keys s.1).2, asked'), rfl, hlands⟩

variable {σ : Type} {serve : Service σ} {p : Provider} {I : List Query → σ → Prop}

/-! ## Builds -/

namespace Builder

/-- A build with a service: the lookups that it makes, the graph that it comes to and the state that
it leaves. -/
inductive Builds (serve : Service σ) (rules : PlatformRules) :
    Builder → σ → List Query → CandidateGraph → σ → Prop
  | done {b : Builder} {s : σ} (hdone : b.queue = []) : Builds serve rules b s [] b.graph s
  | level {b : Builder} {s s' s'' : σ} {begun looked : List Query}
      {joined : List (Query × Answer)} {g : CandidateGraph} (hbusy : b.queue ≠ [])
      (hserve : serve b.wanted.toList s begun joined s')
      (hrest : Builds serve rules ((b.recordJoined joined).advance rules) s' looked g s'') :
      Builds serve rules b s (begun ++ looked) g s''

variable {rules : PlatformRules} {b : Builder} {s s' : σ} {before looked : List Query}
  {g : CandidateGraph}

/-- A build with a service makes each lookup once, and the graph that it comes to is one that the
provider alone gives as well. -/
theorem Builds.sound (h : Builds serve rules b s looked g s') (hserve : serve.AnswersFor p I)
    (hsteady : p.Steady) (hI : I before s) :
    (∃ levels, ((b.run p.lookup rules levels).run ()).1 = some g) ∧
      (looked.Nodup ∧ ∀ q ∈ looked, b.graph.outcome? q = none) ∧ I (before ++ looked) s' := by
  induction h generalizing before with
  | @done b s hdone =>
      refine ⟨⟨0, ?_⟩, ⟨List.nodup_nil, nofun⟩, by simpa using hI⟩
      rw [run_of_isEmpty _ _ _ _ (by simp [hdone])]
  | @level b s s' s'' begun looked joined g hbusy hlevel _ ih =>
      obtain ⟨hbegun, hjoined, hI'⟩ := hserve b.wanted.nodup_toList hI hlevel
      obtain ⟨⟨levels, hrun⟩, ⟨hnodup, hnew⟩, hI''⟩ := ih hI'
      rw [recordJoined_eq hsteady hjoined] at hrun hnew
      refine ⟨⟨levels + 1, ?_⟩, ⟨?_, ?_⟩, by rwa [← List.append_assoc]⟩
      · rw [run_succ _ _ _ _ (by simpa using hbusy)]
        rw [(level_run p.answersFor_lookup rules b (s := ()) trivial).1]
        exact hrun
      · -- What this level looks up has an outcome from here on, so no later level wants it.
        refine List.nodup_append.2 ⟨hbegun.nodup_iff.2 b.wanted.nodup_toList, hnodup, ?_⟩
        rintro q hq _ hq' rfl
        have houtcome := hnew q hq'
        rw [outcome?_advance, outcome?_recordAll, if_pos (hbegun.mem_iff.1 hq)] at houtcome
        cases houtcome
      · intro q hq
        rcases List.mem_append.1 hq with hq | hq
        · exact (mem_wanted.1 (hbegun.mem_iff.1 hq)).1
        · have houtcome := hnew q hq
          rw [outcome?_advance, outcome?_recordAll] at houtcome
          split at houtcome
          · cases houtcome
          · exact houtcome

/-- What is built with a lookup can be built with a service that allows it. -/
theorem exists_builds {τ : Type} {lookup : Lookup τ} {view : σ → τ}
    (hallows : serve.Allows lookup view) {levels : Nat}
    (h : ((b.run lookup rules levels).run (view s)).1 = some g) :
    ∃ looked s', Builds serve rules b s looked g s' ∧
      view s' = ((b.run lookup rules levels).run (view s)).2 := by
  induction levels generalizing b s with
  | zero =>
      by_cases hqueue : b.queue = []
      · rw [run_of_isEmpty _ _ _ _ (by simp [hqueue])] at h ⊢
        obtain rfl := Option.some.inj h
        exact ⟨[], s, .done hqueue, rfl⟩
      · rw [run_zero _ _ _ (by simpa using hqueue)] at h
        cases h
  | succ levels ih =>
      by_cases hqueue : b.queue = []
      · rw [run_of_isEmpty _ _ _ _ (by simp [hqueue])] at h ⊢
        obtain rfl := Option.some.inj h
        exact ⟨[], s, .done hqueue, rfl⟩
      · obtain ⟨s', hview, hlevel⟩ := hallows b.wanted.toList s
        rw [run_succ _ _ _ _ (by simpa using hqueue), level_eq, lookUp_eq_recordJoined] at h ⊢
        dsimp only at h ⊢
        rw [← hview] at h ⊢
        obtain ⟨looked, s'', hrest, hview'⟩ := ih h
        exact ⟨b.wanted.toList ++ looked, s'', .level hqueue hlevel hrest, hview'⟩

end Builder

/-! ## Runs -/

/-- What a run comes to with a pass, unless there is another one. -/
def Step.outcome? : Step → Option Outcome
  | converged g => some (.converged g)
  | iterate _ => none
  | failed errors => some (.failed errors)
  | unsettled => some .unsettled

namespace Run

/-- A run with a service, from an iteration on: the lookups of each of its passes, the outcome and
the state that it leaves. -/
inductive Executes (serve : Service σ) (r : Run) :
    Iteration → σ → List (List Query) → Outcome → σ → Prop
  | last {it : Iteration} {s s' : σ} {looked : List Query} {g : CandidateGraph} {o : Outcome}
      (hbuilds : Builder.Builds serve r.rules (.start r.root r.dependencies it.constraints) s looked
        g s')
      (hlast : (r.ofGraph it g).outcome? = some o) : Executes serve r it s [looked] o s'
  | more {it next : Iteration} {s s' s'' : σ} {looked : List Query} {passes : List (List Query)}
      {g : CandidateGraph} {o : Outcome}
      (hbuilds : Builder.Builds serve r.rules (.start r.root r.dependencies it.constraints) s looked
        g s')
      (hmore : r.ofGraph it g = .iterate next) (hrest : Executes serve r next s' passes o s'') :
      Executes serve r it s (looked :: passes) o s''

variable {r : Run} {it : Iteration} {s s' : σ} {before : List Query} {passes : List (List Query)}
  {o : Outcome}

/-- Each pass of a run comes to a graph when its lookups are made one after the other. -/
def PassesBuild (r : Run) (p : Provider) : Prop :=
  ∀ constraints, ∃ g, ((r.build p.lookup constraints).run ()).1 = some g

/-- A pass with a service comes to the graph that it comes to without. -/
theorem build_eq_of_builds (hserve : serve.AnswersFor p I) (hsteady : p.Steady)
    (hbuild : r.PassesBuild p) {looked : List Query} {g : CandidateGraph}
    (h : Builder.Builds serve r.rules (.start r.root r.dependencies it.constraints) s looked g s')
    (hI : I before s) : ((r.build p.lookup it.constraints).run ()).1 = some g := by
  obtain ⟨g', hg'⟩ := hbuild it.constraints
  obtain ⟨⟨levels, hrun⟩, -⟩ := h.sound hserve hsteady hI
  obtain ⟨rfl, -⟩ := Builder.run_agree p.lookup r.rules (Prod.ext hrun rfl) (Prod.ext hg' rfl)
  exact hg'

/-- The first of some passes over a provider is the last one if it has an outcome. -/
theorem go_of_outcome? {g : CandidateGraph} (n : Nat)
    (h : ((r.build p.lookup it.constraints).run ()).1 = some g)
    (hlast : (r.ofGraph it g).outcome? = some o) :
    ((r.go p.lookup (n + 1) it).run ()).1 = o := by
  rw [go_succ_run, step_run, h]
  dsimp only
  cases hstep : r.ofGraph it g with
  | iterate next => simp [hstep, Step.outcome?] at hlast
  | converged G => simpa [hstep, Step.outcome?] using hlast
  | failed errors => simpa [hstep, Step.outcome?] using hlast
  | unsettled => simpa [hstep, Step.outcome?] using hlast

theorem go_of_iterate {g : CandidateGraph} {next : Iteration} (n : Nat)
    (h : ((r.build p.lookup it.constraints).run ()).1 = some g)
    (hmore : r.ofGraph it g = .iterate next) :
    ((r.go p.lookup (n + 1) it).run ()).1 = ((r.go p.lookup n next).run ()).1 := by
  rw [go_succ_run, step_run, h]
  dsimp only
  rw [hmore]

/-- What a run with a service comes to is what the provider alone gives, and no pass looks anything
up twice. -/
theorem Executes.sound (h : r.Executes serve it s passes o s') (hserve : serve.AnswersFor p I)
    (hsteady : p.Steady) (hbuild : r.PassesBuild p) (hI : I before s) {n : Nat}
    (hn : it.number + n = max r.maxIterations 1) :
    ((r.go p.lookup (n + 1) it).run ()).1 = o ∧ (∀ looked ∈ passes, looked.Nodup) ∧
      I (before ++ passes.flatten) s' := by
  induction h generalizing before n with
  | last hbuilds hlast =>
      obtain ⟨-, ⟨hnodup, -⟩, hI'⟩ := hbuilds.sound hserve hsteady hI
      have hgraph := build_eq_of_builds hserve hsteady hbuild hbuilds hI
      exact ⟨go_of_outcome? n hgraph hlast, by simpa using hnodup, by simpa using hI'⟩
  | @more it next s s' s'' looked passes g o hbuilds hmore _ ih =>
      obtain ⟨-, ⟨hnodup, -⟩, hI'⟩ := hbuilds.sound hserve hsteady hI
      have hgraph := build_eq_of_builds hserve hsteady hbuild hbuilds hI
      obtain ⟨n, rfl, hn'⟩ := exists_left_of_iterate hmore hn
      obtain ⟨hgo, hpasses, hI''⟩ := ih hI' hn'
      refine ⟨(go_of_iterate _ hgraph hmore).trans hgo, ?_, ?_⟩
      · exact List.forall_mem_cons.2 ⟨hnodup, hpasses⟩
      · rw [List.flatten_cons, ← List.append_assoc]
        exact hI''

/-- What is run with a lookup can be run with a service that allows it. -/
theorem exists_executes {τ : Type} {lookup : Lookup τ} {view : σ → τ} {J : τ → Prop}
    (hallows : serve.Allows lookup view) (hlookup : lookup.AnswersFor p J) (hJ : J (view s))
    (hbuild : r.PassesBuild p) {n : Nat} (hn : it.number + n = max r.maxIterations 1) :
    ∃ passes s', r.Executes serve it s passes ((r.go lookup (n + 1) it).run (view s)).1 s' ∧
      view s' = ((r.go lookup (n + 1) it).run (view s)).2 := by
  induction n using Nat.strong_induction_on generalizing it s with
  | _ n ih =>
      obtain ⟨g, hg⟩ := hbuild it.constraints
      obtain ⟨hsame, hJ'⟩ := Builder.run_eq hlookup r.rules
        (r.reach.levels r.dependencies it.constraints)
        (.start r.root r.dependencies it.constraints) hJ
      have hgraph : ((r.build lookup it.constraints).run (view s)).1 = some g := hsame.trans hg
      obtain ⟨looked, s', hbuilds, hview⟩ := Builder.exists_builds hallows hgraph
      have hleft : ((r.build lookup it.constraints).run (view s)).2 = view s' := hview.symm
      rw [go_succ, step_run, hgraph, hleft]
      dsimp only
      cases hstep : r.ofGraph it g with
      | converged G => exact ⟨[looked], s', .last hbuilds (by rw [hstep]; rfl), rfl⟩
      | failed errors => exact ⟨[looked], s', .last hbuilds (by rw [hstep]; rfl), rfl⟩
      | unsettled => exact ⟨[looked], s', .last hbuilds (by rw [hstep]; rfl), rfl⟩
      | iterate next =>
          obtain ⟨n, rfl, hn'⟩ := exists_left_of_iterate hstep hn
          obtain ⟨passes, s'', hrest, hview'⟩ := ih n (Nat.lt_succ_self n) (hview ▸ hJ') hn'
          exact ⟨looked :: passes, s'', .more hbuilds hstep hrest, hview'⟩

/-- A whole run with a service. -/
theorem Executes.whole (h : r.Executes serve r.initial s passes o s')
    (hserve : serve.AnswersFor p I) (hsteady : p.Steady) (hbuild : r.PassesBuild p) (hI : I [] s) :
    ((r.run p.lookup).run ()).1 = o ∧ (∀ looked ∈ passes, looked.Nodup) ∧ I passes.flatten s' := by
  obtain ⟨n, hn⟩ := Nat.exists_eq_add_of_le' (Nat.le_max_right r.maxIterations 1)
  have hfirst : r.initial.number + n = max r.maxIterations 1 := (Nat.add_comm 1 n).trans hn.symm
  unfold run
  rw [hn]
  exact h.sound hserve hsteady hbuild hI hfirst

theorem exists_whole {τ : Type} {lookup : Lookup τ} {view : σ → τ} {J : τ → Prop}
    (hallows : serve.Allows lookup view) (hlookup : lookup.AnswersFor p J) (hJ : J (view s))
    (hbuild : r.PassesBuild p) :
    ∃ passes s', r.Executes serve r.initial s passes ((r.run lookup).run (view s)).1 s' ∧
      view s' = ((r.run lookup).run (view s)).2 := by
  obtain ⟨n, hn⟩ := Nat.exists_eq_add_of_le' (Nat.le_max_right r.maxIterations 1)
  have hfirst : r.initial.number + n = max r.maxIterations 1 := (Nat.add_comm 1 n).trans hn.symm
  unfold run
  rw [hn]
  exact exists_executes hallows hlookup hJ hbuild hfirst

end Run

/-! ## Behind a cache -/

/-- Over a catalog, every pass comes to a graph. -/
theorem Run.passesBuild_of_reach {r : Run} {catalog : Catalog} (order : VersionOrder)
    (hreach : r.reach = catalog.reach r.rules) : r.PassesBuild (catalog.provider order) := by
  intro constraints
  obtain ⟨b, -, hbuild⟩ := exists_finished order hreach constraints ()
  exact ⟨b.graph, congrArg Prod.fst hbuild⟩

/-- What a fresh cache and the provider behind it have counted at the end of a run with these
passes. -/
structure Cache.Tallies (passes : List (List Query)) (asked : List Query) (c : Cache) : Prop where
  /-- No pass looks a query up twice. -/
  once : ∀ looked ∈ passes, looked.Nodup
  /-- The provider has been asked once what a pass has looked up, and nothing else. -/
  asked : ∀ q, asked.count q = if ∃ looked ∈ passes, q ∈ looked then 1 else 0
  misses : c.misses = passes.flatten.dedup.length
  lookups : c.hits + c.misses = (passes.map fun looked => looked.dedup.length).sum

theorem Cache.Balanced.tallies {p : Provider} {asked : List Query} {c : Cache}
    {passes : List (List Query)} (h : c.Balanced p asked passes.flatten [] [])
    (honce : ∀ looked ∈ passes, looked.Nodup) : c.Tallies passes asked := by
  have hmem : ∀ q, q ∈ asked ↔ q ∈ passes.flatten := fun q => by simpa using (h.known q).symm
  have hperm : asked.Perm passes.flatten.dedup := by
    refine (List.perm_ext_iff_of_nodup h.once (List.nodup_dedup _)).2 fun q => ?_
    rw [List.mem_dedup, hmem]
  constructor
  case once => exact honce
  case asked =>
    intro q
    have hq : q ∈ asked ↔ ∃ looked ∈ passes, q ∈ looked := (hmem q).trans List.mem_flatten
    split
    · next hlooked => exact List.count_eq_one_of_mem h.once (hq.2 hlooked)
    · next hlooked => exact List.count_eq_zero_of_not_mem fun hmem => hlooked (hq.1 hmem)
  case misses =>
    have hmisses := h.misses
    rw [hperm.length_eq] at hmisses
    simpa using hmisses
  case lookups =>
    have hdedup : passes.map (fun looked => looked.dedup.length) = passes.map List.length :=
      List.map_congr_left fun looked hlooked => by rw [(honce looked hlooked).dedup]
    rw [h.lookups, List.length_flatten, hdedup]

/-- Whatever the interleaving of its lookups, a run behind a fresh cache comes to what the provider
alone gives, in whatever order it is asked, and passes each query on once. One such run makes its
lookups one after the other. -/
theorem Request.transparent (request : Request) (settings : Settings) (catalog : Catalog)
    (permits : Nat) :
    let r := Run.ofRequest request settings catalog
    let p := catalog.provider r.order
    (∃ bare, r.Executes p.serves r.initial () bare ((r.run p.lookup).run ()).1 ()) ∧
    (∃ passes asked, r.Executes (Cache.serves p permits) r.initial ({}, []) passes
      (request.resolveOver settings catalog) (((r.run (Cache.lookup p)).run {}).2, asked)) ∧
    ∀ passes o cache asked,
      r.Executes (Cache.serves p permits) r.initial ({}, []) passes o (cache, asked) →
      (∀ bare o', r.Executes p.serves r.initial () bare o' () → o = o') ∧
      cache.Tallies passes asked := by
  intro r p
  have hsteady : p.Steady := Catalog.steady_provider (Scheme.oriented _)
  have hbuild : r.PassesBuild p := Run.passesBuild_of_reach r.order rfl
  have hfaithful : Cache.Faithful p {} := (Cache.balanced_empty p).faithful
  refine ⟨?_, ?_, ?_⟩
  · obtain ⟨bare, s, h, -⟩ := Run.exists_whole (s := ()) p.allows_lookup p.answersFor_lookup
      trivial hbuild
    exact ⟨bare, h⟩
  · obtain ⟨passes, ⟨cache, asked⟩, h, rfl⟩ := Run.exists_whole (s := ({}, []))
      (Cache.allows_lookup p permits) (Cache.answersFor_lookup p) hfaithful hbuild
    exact ⟨passes, asked, h⟩
  · intro passes o cache asked h
    obtain ⟨hrun, honce, hbalanced⟩ := h.whole (Cache.answersFor_serves p permits) hsteady hbuild
      (Cache.balanced_empty p)
    refine ⟨fun bare o' h' => ?_, Cache.Balanced.tallies hbalanced honce⟩
    obtain ⟨hrun', -⟩ := h'.whole p.answersFor_serves hsteady hbuild trivial
    exact hrun.symm.trans hrun'

end Lockstep
