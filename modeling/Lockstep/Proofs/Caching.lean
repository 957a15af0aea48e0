import Lockstep.Command.Execution
import Lockstep.Proofs.Building

/-!
# Lookups that answer for a provider

A lookup may keep a state; as long as it gives the answers of a provider, a run
with it comes to the same as a run with the bare provider (`Run.run_eq`). The
cache is such a lookup, so a request is resolved as if there were none
(`Request.resolveOver_eq`).
-/

namespace Lockstep

variable {σ : Type} {lookup : Lookup σ} {p : Provider} {I : σ → Prop}

/-- In the states of an invariant, a lookup gives the answers of a provider. -/
def Lookup.AnswersFor (lookup : Lookup σ) (p : Provider) (I : σ → Prop) : Prop :=
  ∀ q s, I s → ((lookup q).run s).1 = p q ∧ I ((lookup q).run s).2

theorem Provider.answersFor_lookup (p : Provider) : p.lookup.AnswersFor p fun _ => True :=
  fun _ _ _ => ⟨rfl, trivial⟩

/-! ## Builds -/

namespace Builder

variable (h : lookup.AnswersFor p I)

include h

theorem lookUp_run (qs : List Query) (b : Builder) {s : σ} (hs : I s) :
    ((lookUp lookup qs b).run s).1 = b.recordAll p qs ∧ I ((lookUp lookup qs b).run s).2 := by
  induction qs generalizing b s with
  | nil => exact ⟨rfl, hs⟩
  | cons q rest ih =>
      obtain ⟨hanswer, hs'⟩ := h q s hs
      have hrest := ih (b.record q ((lookup q).run s).1) hs'
      rw [hanswer] at hrest
      change
        ((lookUp lookup rest (b.record q ((lookup q).run s).1)).run ((lookup q).run s).2).1 = _ ∧
        I ((lookUp lookup rest (b.record q ((lookup q).run s).1)).run ((lookup q).run s).2).2
      rw [hanswer]
      exact hrest

theorem level_run (rules : PlatformRules) (b : Builder) {s : σ} (hs : I s) :
    ((b.level lookup rules).run s).1 = b.levelWith rules p ∧
      I ((b.level lookup rules).run s).2 := by
  obtain ⟨hbuilder, hs'⟩ := lookUp_run h b.wanted.toList b hs
  rw [level_eq]
  refine ⟨?_, hs'⟩
  dsimp only
  rw [hbuilder]
  rfl

theorem run_eq (rules : PlatformRules) (levels : Nat) (b : Builder) {s : σ} (hs : I s) :
    ((b.run lookup rules levels).run s).1 = ((b.run p.lookup rules levels).run ()).1 ∧
      I ((b.run lookup rules levels).run s).2 := by
  induction levels generalizing b s with
  | zero =>
      cases hempty : b.queue.isEmpty with
      | true =>
          rw [run_of_isEmpty _ _ _ _ hempty, run_of_isEmpty _ _ _ _ hempty]
          exact ⟨rfl, hs⟩
      | false =>
          rw [run_zero _ _ _ hempty, run_zero _ _ _ hempty]
          exact ⟨rfl, hs⟩
  | succ levels ih =>
      cases hempty : b.queue.isEmpty with
      | true =>
          rw [run_of_isEmpty _ _ _ _ hempty, run_of_isEmpty _ _ _ _ hempty]
          exact ⟨rfl, hs⟩
      | false =>
          obtain ⟨hlevel, hs'⟩ := level_run h rules b hs
          obtain ⟨hbare, -⟩ := level_run p.answersFor_lookup rules b (s := ()) trivial
          rw [run_succ _ _ _ _ hempty, run_succ _ _ _ _ hempty, hlevel, hbare]
          exact ih (b.levelWith rules p) hs'

end Builder

/-! ## Runs -/

namespace Run

variable (r : Run) (it : Iteration) (s : σ)

/-- A pass builds a graph and goes by nothing else. -/
theorem step_run (lookup : Lookup σ) : (r.step lookup it).run s =
    ((match ((r.build lookup it.constraints).run s).1 with
      | none => Step.unsettled
      | some g => r.ofGraph it g), ((r.build lookup it.constraints).run s).2) := by
  change (match ((r.build lookup it.constraints).run s).1 with
    | none => pure Step.unsettled
    | some g => pure (r.ofGraph it g) : StateM σ Step).run
      ((r.build lookup it.constraints).run s).2 = _
  cases ((r.build lookup it.constraints).run s).1 <;> rfl

/-- Passes go on as the first one says. -/
theorem go_succ (lookup : Lookup σ) (passes : Nat) : (r.go lookup (passes + 1) it).run s =
    match ((r.step lookup it).run s).1 with
    | .converged g => (.converged g, ((r.step lookup it).run s).2)
    | .iterate next => (r.go lookup passes next).run ((r.step lookup it).run s).2
    | .failed errors => (.failed errors, ((r.step lookup it).run s).2)
    | .unsettled => (.unsettled, ((r.step lookup it).run s).2) := by
  change (match ((r.step lookup it).run s).1 with
    | .converged g => pure (Outcome.converged g)
    | .iterate next => go lookup r passes next
    | .failed errors => pure (.failed errors)
    | .unsettled => pure .unsettled : StateM σ Outcome).run ((r.step lookup it).run s).2 = _
  cases ((r.step lookup it).run s).1 <;> rfl

theorem go_succ_run (lookup : Lookup σ) (passes : Nat) :
    ((r.go lookup (passes + 1) it).run s).1 =
      match ((r.step lookup it).run s).1 with
      | .converged g => .converged g
      | .iterate next => ((r.go lookup passes next).run ((r.step lookup it).run s).2).1
      | .failed errors => .failed errors
      | .unsettled => .unsettled := by
  rw [go_succ]
  cases ((r.step lookup it).run s).1 <;> rfl

variable {s} (h : lookup.AnswersFor p I) (hs : I s)

include h hs

theorem step_eq : ((r.step lookup it).run s).1 = ((r.step p.lookup it).run ()).1 ∧
    I ((r.step lookup it).run s).2 := by
  obtain ⟨hbuild, hs'⟩ := Builder.run_eq h r.rules (r.reach.levels r.dependencies it.constraints)
    (.start r.root r.dependencies it.constraints) hs
  have hgraph : ((r.build lookup it.constraints).run s).1 =
      ((r.build p.lookup it.constraints).run ()).1 := hbuild
  rw [step_run, step_run]
  exact ⟨by rw [hgraph], hs'⟩

theorem go_eq (passes : Nat) :
    ((r.go lookup passes it).run s).1 = ((r.go p.lookup passes it).run ()).1 := by
  induction passes generalizing it s with
  | zero => rfl
  | succ passes ih =>
      obtain ⟨hstep, hs'⟩ := step_eq r it h hs
      rw [go_succ_run, go_succ_run, hstep]
      cases ((r.step p.lookup it).run ()).1 with
      | iterate next => exact ih next hs'
      | converged g => rfl
      | failed errors => rfl
      | unsettled => rfl

/-- A run with such a lookup comes to the same as a run with the bare provider. -/
theorem run_eq : ((r.run lookup).run s).1 = ((r.run p.lookup).run ()).1 :=
  go_eq r r.initial h hs (max r.maxIterations 1)

end Run

/-! ## The cache -/

/-- All answers kept are those of the provider. -/
def Cache.Faithful (p : Provider) (c : Cache) : Prop :=
  ∀ q a, c.answers.get? q = some a → a = p q

theorem Cache.answersFor_lookup (p : Provider) :
    (Cache.lookup p).AnswersFor p (Cache.Faithful p) := by
  intro q c hc
  change (Cache.lookup p q c).1 = p q ∧ Cache.Faithful p (Cache.lookup p q c).2
  unfold Cache.lookup Cache.check
  cases ha : c.answers.get? q with
  | some a => exact ⟨hc q a ha, hc⟩
  | none =>
      refine ⟨rfl, fun q' a ha' => ?_⟩
      change (c.answers.insert q (p q)).get? q' = some a at ha'
      rw [SortedMap.get?_insert] at ha'
      split at ha'
      · next heq =>
        rw [heq]
        exact (Option.some.inj ha').symm
      · exact hc q' a ha'

/-- The cache makes no difference to what a request comes to. -/
theorem Request.resolveOver_eq (request : Request) (settings : Settings) (catalog : Catalog) :
    request.resolveOver settings catalog =
      (((Run.ofRequest request settings catalog).run (catalog.provider
        (Run.ofRequest request settings catalog).order).lookup).run ()).1 :=
  Run.run_eq _ (Cache.answersFor_lookup _) fun _ _ ha => (by cases ha)

end Lockstep
