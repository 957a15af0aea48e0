import Lockstep.Proofs.Ending
import Lockstep.Proofs.Caching

/-!
# The passes of a run

A run is a list of passes (`Run.passes`). Of each pass are kept the lookups that
it made, in their order, what they left of the state, and the candidate graph
that it came to. Together the passes make just the lookups of the run
(`Run.go_logged`). Over a catalog, every pass comes to a graph
(`Run.exists_graph_of_mem_passes`).
-/

namespace Lockstep

variable {σ : Type}

/-- A lookup that keeps a list of what it is asked. -/
def Lookup.logged (lookup : Lookup σ) : Lookup (σ × List Query) := fun q s =>
  (((lookup q).run s.1).1, ((lookup q).run s.1).2, s.2 ++ [q])

/-! ## Builds -/

namespace Builder

theorem lookUp_logged (lookup : Lookup σ) (qs : List Query) (b : Builder) (s : σ)
    (log : List Query) : (lookUp lookup.logged qs b).run (s, log) =
      (((lookUp lookup qs b).run s).1, ((lookUp lookup qs b).run s).2, log ++ qs) := by
  induction qs generalizing b s log with
  | nil => exact congrArg (fun l => (b, s, l)) (List.append_nil log).symm
  | cons q rest ih =>
      change (lookUp lookup.logged rest (b.record q ((lookup q).run s).1)).run
        (((lookup q).run s).2, log ++ [q]) = _
      rw [ih, List.append_assoc]
      rfl

/-- The log makes no difference to a build. -/
theorem exists_run_logged (lookup : Lookup σ) (rules : PlatformRules) (levels : Nat) (b : Builder)
    (s : σ) : ∃ asked, ∀ log, (b.run lookup.logged rules levels).run (s, log) =
      (((b.run lookup rules levels).run s).1, ((b.run lookup rules levels).run s).2,
        log ++ asked) := by
  induction levels generalizing b s with
  | zero =>
      refine ⟨[], fun log => ?_⟩
      cases hempty : b.queue.isEmpty with
      | true =>
          rw [run_of_isEmpty _ _ _ _ hempty, run_of_isEmpty _ _ _ _ hempty, List.append_nil]
      | false => rw [run_zero _ _ _ hempty, run_zero _ _ _ hempty, List.append_nil]
  | succ levels ih =>
      cases hempty : b.queue.isEmpty with
      | true =>
          refine ⟨[], fun log => ?_⟩
          rw [run_of_isEmpty _ _ _ _ hempty, run_of_isEmpty _ _ _ _ hempty, List.append_nil]
      | false =>
          obtain ⟨asked, hasked⟩ := ih ((b.level lookup rules).run s).1
            ((b.level lookup rules).run s).2
          refine ⟨b.wanted.toList ++ asked, fun log => ?_⟩
          rw [level_eq] at hasked
          rw [run_succ _ _ _ _ hempty, run_succ _ _ _ _ hempty, level_eq, level_eq, lookUp_logged]
          dsimp only
          rw [hasked, List.append_assoc]

/-- A build that comes to an end comes to the same with any number of levels that suffices. -/
theorem run_agree (lookup : Lookup σ) (rules : PlatformRules) {levels levels' : Nat} {b : Builder}
    {s s₁ s₂ : σ} {g g' : CandidateGraph} (h : (b.run lookup rules levels).run s = (some g, s₁))
    (h' : (b.run lookup rules levels').run s = (some g', s₂)) : g = g' ∧ s₁ = s₂ := by
  induction levels generalizing levels' b s with
  | zero =>
      cases hempty : b.queue.isEmpty with
      | true =>
          rw [run_of_isEmpty _ _ _ _ hempty] at h h'
          cases h
          cases h'
          exact ⟨rfl, rfl⟩
      | false =>
          rw [run_zero _ _ _ hempty] at h
          cases h
  | succ levels ih =>
      cases hempty : b.queue.isEmpty with
      | true =>
          rw [run_of_isEmpty _ _ _ _ hempty] at h h'
          cases h
          cases h'
          exact ⟨rfl, rfl⟩
      | false =>
          cases levels' with
          | zero =>
              rw [run_zero _ _ _ hempty] at h'
              cases h'
          | succ levels' =>
              rw [run_succ _ _ _ _ hempty] at h h'
              exact ih h h'

end Builder

/-! ## Passes -/

/-- What a pass asks for and what it comes to. -/
@[ext] structure Pass (σ : Type) where
  number : Nat
  /-- Its lookups, in the order in which they are made. -/
  asked : List Query
  /-- The state that they leave. -/
  left : σ
  graph? : Option CandidateGraph

namespace Run

/-- The pass over an iteration, from a state of the lookups. -/
def pass (lookup : Lookup σ) (r : Run) (it : Iteration) (s : σ) : Pass σ :=
  match (r.build lookup.logged it.constraints).run (s, []) with
  | (graph?, left, asked) => ⟨it.number, asked, left, graph?⟩

/-- What follows from a pass. -/
def after (r : Run) (it : Iteration) (p : Pass σ) : Step :=
  match p.graph? with
  | none => .unsettled
  | some g => r.ofGraph it g

/-- The passes from an iteration on, at most so many. -/
def passes (lookup : Lookup σ) (r : Run) : Nat → Iteration → σ → List (Pass σ)
  | 0, _, _ => []
  | n + 1, it, s =>
    let p := r.pass lookup it s
    p :: match r.after it p with
      | .iterate next => passes lookup r n next p.left
      | _ => []

variable (lookup : Lookup σ) (r : Run) (it : Iteration) (s : σ)

/-- The log makes no difference to the build of a pass. -/
theorem exists_build_logged : ∃ asked, ∀ log,
    (r.build lookup.logged it.constraints).run (s, log) =
      (((r.build lookup it.constraints).run s).1, ((r.build lookup it.constraints).run s).2,
        log ++ asked) :=
  Builder.exists_run_logged lookup r.rules (r.reach.levels r.dependencies it.constraints)
    (.start r.root r.dependencies it.constraints) s

theorem build_logged (log : List Query) :
    (r.build lookup.logged it.constraints).run (s, log) = ((r.pass lookup it s).graph?,
      (r.pass lookup it s).left, log ++ (r.pass lookup it s).asked) := by
  obtain ⟨asked, hasked⟩ := exists_build_logged lookup r it s
  unfold pass
  rw [hasked, hasked]
  rfl

/-- A pass builds what it would build without a log. -/
theorem build_eq_pass : (r.build lookup it.constraints).run s =
    ((r.pass lookup it s).graph?, (r.pass lookup it s).left) := by
  obtain ⟨asked, hasked⟩ := exists_build_logged lookup r it s
  unfold pass
  rw [hasked]
  rfl

theorem step_eq_after : (r.step lookup it).run s =
    (r.after it (r.pass lookup it s), (r.pass lookup it s).left) := by
  rw [step_run, build_eq_pass]
  rfl

theorem step_logged (log : List Query) : (r.step lookup.logged it).run (s, log) =
    (r.after it (r.pass lookup it s), (r.pass lookup it s).left,
      log ++ (r.pass lookup it s).asked) := by
  rw [step_run, build_logged]
  rfl

theorem passes_succ (n : Nat) : r.passes lookup (n + 1) it s =
    r.pass lookup it s :: match r.after it (r.pass lookup it s) with
      | .iterate next => r.passes lookup n next (r.pass lookup it s).left
      | _ => [] := rfl

/-- The lookups of a run are those of its passes, one pass after the other. -/
theorem go_logged (n : Nat) (log : List Query) : (r.go lookup.logged n it).run (s, log) =
    (((r.go lookup n it).run s).1, ((r.go lookup n it).run s).2,
      log ++ (r.passes lookup n it s).flatMap Pass.asked) := by
  induction n generalizing it s log with
  | zero => exact congrArg (fun l => (Outcome.unsettled, s, l)) (List.append_nil log).symm
  | succ n ih =>
      rw [go_succ, go_succ, step_logged, step_eq_after, passes_succ]
      dsimp only
      cases r.after it (r.pass lookup it s) with
      | iterate next =>
          dsimp only
          rw [ih, List.flatMap_cons, List.append_assoc]
      | converged g => exact congrArg (fun l => (_, _, log ++ l)) (List.append_nil _).symm
      | failed errors => exact congrArg (fun l => (_, _, log ++ l)) (List.append_nil _).symm
      | unsettled => exact congrArg (fun l => (_, _, log ++ l)) (List.append_nil _).symm

variable {p : Provider} {I : σ → Prop} {s}

/-- Over a catalog, a pass comes to a graph. -/
theorem exists_graph_of_pass {catalog : Catalog} {order : VersionOrder}
    (hreach : r.reach = catalog.reach r.rules)
    (h : lookup.AnswersFor (catalog.provider order) I) (hs : I s) :
    ∃ g, (r.pass lookup it s).graph? = some g ∧ I (r.pass lookup it s).left := by
  obtain ⟨b, -, hbuild⟩ := exists_finished order hreach it.constraints ()
  obtain ⟨hgraph, hleft⟩ := Builder.run_eq h r.rules (r.reach.levels r.dependencies it.constraints)
    (.start r.root r.dependencies it.constraints) hs
  change ((r.build lookup it.constraints).run s).1 =
    ((r.build (catalog.provider order).lookup it.constraints).run ()).1 at hgraph
  change I ((r.build lookup it.constraints).run s).2 at hleft
  rw [hbuild, build_eq_pass] at hgraph
  rw [build_eq_pass] at hleft
  exact ⟨b.graph, hgraph, hleft⟩

/-- Over a catalog, every pass comes to a graph. -/
theorem exists_graph_of_mem_passes {catalog : Catalog} {order : VersionOrder}
    (hreach : r.reach = catalog.reach r.rules)
    (h : lookup.AnswersFor (catalog.provider order) I) (n : Nat) (hs : I s) {p : Pass σ}
    (hp : p ∈ r.passes lookup n it s) : ∃ g, p.graph? = some g := by
  induction n generalizing it s with
  | zero => cases hp
  | succ n ih =>
      obtain ⟨g, hg, hleft⟩ := exists_graph_of_pass lookup r it hreach h hs
      rw [passes_succ] at hp
      rcases List.mem_cons.1 hp with rfl | hp
      · exact ⟨g, hg⟩
      · split at hp
        · next next _ => exact ih next hleft hp
        · cases hp

end Run

/-- The passes of a request over a catalog, behind a fresh cache. -/
def Request.passes (request : Request) (settings : Settings) (catalog : Catalog) :
    List (Pass Cache) :=
  let run := Run.ofRequest request settings catalog
  run.passes (Cache.lookup (catalog.provider run.order)) (max run.maxIterations 1) run.initial {}

/-- The lookups of a request are those of its passes, and every pass comes to a graph. -/
theorem Request.asked_passes (request : Request) (settings : Settings) (catalog : Catalog) :
    (((Run.ofRequest request settings catalog).run (Cache.lookup (catalog.provider
        (Run.ofRequest request settings catalog).order)).logged).run ({}, [])).2.2 =
      (request.passes settings catalog).flatMap Pass.asked ∧
    ∀ p ∈ request.passes settings catalog, ∃ g, p.graph? = some g := by
  constructor
  · unfold Run.run
    rw [Run.go_logged]
    exact List.nil_append _
  · intro p hp
    exact Run.exists_graph_of_mem_passes _ _ _ rfl (Cache.answersFor_lookup _) _
      (fun _ _ ha => (by cases ha)) hp

end Lockstep
