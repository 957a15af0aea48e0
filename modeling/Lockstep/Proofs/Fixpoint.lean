import Mathlib.Logic.Relation
import Lockstep.Proofs.Convergence
import Lockstep.Proofs.Members
import Lockstep.Proofs.Permutation

/-!
# Runs and the fixpoint of alignment

A run makes one pass after the other, as many as it takes (`Run.Drives`), and
keeps the stage that it is at. If each of its passes ends, so does the run, after
no more passes than it is allowed; its account (`Run.Account`) says what the
passes were given and how the last one ended (`Run.accounted_of_ends`).
-/

namespace Lockstep

/-! ## Errors of a pass

Only a run tells that alignment still changes, and no pass within it. -/

theorem Round.noConvergence_not_mem_errors (order : VersionOrder) (g : CandidateGraph)
    (demands : Demands) (n : Nat) (cs : List Constraint) :
    .noConvergence n cs ∉ (Round.ofDemands order g demands).errors := by
  intro hmem
  obtain ⟨id, set, -, herr⟩ := Round.mem_errors.1 hmem
  have hselecting := (Choice.sound_select order g id set).selecting n cs
  cases hv : (Choice.select order g id set).version with
  | none =>
      rw [Round.choose_fst_eq_of_none hv] at herr
      exact hselecting (Option.mem_toList.1 herr)
  | some v =>
      rw [Round.choose_fst_eq hv] at herr
      rcases List.mem_append.1 herr with herr | herr
      · exact hselecting (Option.mem_toList.1 herr)
      · have hmissing := Option.mem_toList.1 herr
        unfold Round.missing at hmissing
        dsimp only at hmissing
        split at hmissing
        · simp at hmissing
        · simp at hmissing

theorem Resolution.noConvergence_not_mem_errors {order : VersionOrder} {g : CandidateGraph}
    {constraints : SortedSet Constraint} {res : Resolution}
    (h : resolve order g constraints = some res) (n : Nat) (cs : List Constraint) :
    .noConvergence n cs ∉ res.errors := by
  obtain ⟨rounds, live, round, hrun, rfl⟩ := CandidateGraph.resolvesTo_of_resolve h
  obtain ⟨r, -, hsettled⟩ := Rounds.run_induction (P := fun _ => True) (fun _ _ _ _ => trivial)
    trivial hrun
  obtain ⟨live', hwalk⟩ : ∃ live', walk g r.guide = some live' := by
    unfold Rounds.step at hsettled
    obtain ⟨live', hwalk, -⟩ := Option.bind_eq_some_iff.1 hsettled
    exact ⟨live', hwalk⟩
  rw [Rounds.step_eq order g constraints r hwalk] at hsettled
  split at hsettled
  · obtain ⟨-, rfl⟩ : live' = live ∧ _ = round := by simpa using hsettled
    exact Round.noConvergence_not_mem_errors order g _ n cs
  · simp at hsettled

theorem Alignment.noConvergence_not_mem_errors (order : VersionOrder) (g : CandidateGraph)
    (rules : PlatformRules) (res : Resolution) (n : Nat) (cs : List Constraint) :
    .noConvergence n cs ∉ (align order g rules res).errors := by
  rw [Alignment.align_eq]
  intro hmem
  obtain ⟨⟨platform, m⟩, -, hconflict⟩ := List.mem_filterMap.1 hmem
  unfold Alignment.conflict? at hconflict
  split at hconflict
  · next e hversion =>
    obtain rfl := Option.some.inj hconflict
    unfold Alignment.versionOf at hversion
    -- The versions of forced or of enforced members differ, and a conflict says so.
    repeat' split at hversion
    all_goals simp at hversion
  · simp at hconflict

theorem noConvergence_not_mem_misaligned (order : VersionOrder) (g : CandidateGraph)
    (res : Resolution) (platforms : List AlignedPlatform) (n : Nat) (cs : List Constraint) :
    .noConvergence n cs ∉ misaligned order g res platforms := by
  intro hmem
  obtain ⟨p, -, hp⟩ := List.mem_filterMap.1 hmem
  split at hp
  · simp at hp
  · simp at hp

/-- The step that ends a run with an outcome. -/
def Outcome.step : Outcome → Step
  | converged G => .converged G
  | failed errors => .failed errors
  | unsettled => .unsettled

namespace Run

/-! ## Stages -/

/-- The stages of a run, those within a pass included. -/
inductive Stage where
  | initial
  | building
  | resolving
  | aligning
  | iterating
  | converged
  | failed
deriving DecidableEq, Repr

/-- What a stage is between passes. A pass that is left within has not settled. -/
def Stage.state : Stage → RunState
  | initial => .initial
  | building | resolving | aligning => .unsettled
  | iterating => .iterating
  | converged => .converged
  | failed => .failed

variable {σ : Type}

def enter (stage : Stage) : StateM (σ × Stage) Unit :=
  modify fun s => (s.1, stage)

/-- Leaves the stage as it is. -/
def within {α : Type} (m : StateM σ α) : StateM (σ × Stage) α := fun s =>
  ((m.run s.1).1, (m.run s.1).2, s.2)

def fail (errors : List ResolveError) : StateM (σ × Stage) Step := do
  enter .failed
  return .failed errors

@[simp] theorem run_enter_bind {α : Type} (stage : Stage) (f : Unit → StateM (σ × Stage) α)
    (s : σ × Stage) : (enter stage >>= f).run s = (f ()).run (s.1, stage) := rfl

@[simp] theorem run_within_bind {α β : Type} (m : StateM σ α) (f : α → StateM (σ × Stage) β)
    (s : σ × Stage) :
    (within m >>= f).run s = (f (m.run s.1).1).run ((m.run s.1).2, s.2) := rfl

@[simp] theorem run_fail (errors : List ResolveError) (s : σ × Stage) :
    (fail errors).run s = (.failed errors, s.1, .failed) := rfl

/-- Aligns a resolution, unless it has errors. -/
def stagedAlign (r : Run) (it : Iteration) (g : CandidateGraph) (res : Resolution) :
    StateM (σ × Stage) Step :=
  if res.errors ≠ [] then fail res.errors
  else do
    enter .aligning
    let a := align r.order g r.rules res
    if a.errors ≠ [] then fail a.errors
    else if r.next a = it.constraints then
      let astray := misaligned r.order g res a.platforms
      if astray ≠ [] then fail astray
      else
        enter .converged
        return .converged (.ofResolution g res a.platforms it.number)
    else if max r.maxIterations 1 ≤ it.number then
      fail [.noConvergence it.number ((r.next a).symmDiff it.constraints).toList]
    else
      enter .iterating
      return .iterate ⟨it.number + 1, r.next a⟩

/-- One pass that keeps the stage that it is at. -/
def stagedStep (lookup : Lookup σ) (r : Run) (it : Iteration) : StateM (σ × Stage) Step := do
  enter .building
  match ← within (r.build lookup it.constraints) with
  | none => return .unsettled
  | some g =>
    enter .resolving
    match resolve r.order g it.constraints with
    | none => return .unsettled
    | some res => stagedAlign r it g res

/-! ## How a pass ends -/

/-- A pass that has ended: what it was given, the candidate graph and the resolution. -/
structure Made where
  input : Iteration
  graph : CandidateGraph
  resolution : Resolution

namespace Made

variable (r : Run) (m : Made)

def alignment : Alignment :=
  align r.order m.graph r.rules m.resolution

/-- The members that the selections leave at another version than their platform's. -/
def astray : List ResolveError :=
  misaligned r.order m.graph m.resolution (m.alignment r).platforms

def resolved : ResolvedGraph :=
  .ofResolution m.graph m.resolution (m.alignment r).platforms m.input.number

end Made

/-- What a pass can come to, in the order in which it is decided. -/
inductive Exit (r : Run) (m : Made) : Step → Prop
  | unresolved : m.resolution.errors ≠ [] → Exit r m (.failed m.resolution.errors)
  | unaligned : m.resolution.errors = [] → (m.alignment r).errors ≠ [] →
    Exit r m (.failed (m.alignment r).errors)
  | astray : m.resolution.errors = [] → (m.alignment r).errors = [] →
    r.next (m.alignment r) = m.input.constraints → m.astray r ≠ [] →
    Exit r m (.failed (m.astray r))
  | converged : m.resolution.errors = [] → (m.alignment r).errors = [] →
    r.next (m.alignment r) = m.input.constraints → m.astray r = [] →
    Exit r m (.converged (m.resolved r))
  | ceiling : m.resolution.errors = [] → (m.alignment r).errors = [] →
    r.next (m.alignment r) ≠ m.input.constraints → max r.maxIterations 1 ≤ m.input.number →
    Exit r m (.failed [.noConvergence m.input.number
      ((r.next (m.alignment r)).symmDiff m.input.constraints).toList])
  | again : m.resolution.errors = [] → (m.alignment r).errors = [] →
    r.next (m.alignment r) ≠ m.input.constraints → m.input.number < max r.maxIterations 1 →
    Exit r m (.iterate ⟨m.input.number + 1, r.next (m.alignment r)⟩)

variable {lookup : Lookup σ} {r : Run} {it : Iteration} {s : σ}

theorem exit_ofResolution (r : Run) (m : Made) :
    r.Exit m (r.ofResolution m.input m.graph m.resolution) := by
  unfold ofResolution
  split
  · next e es herrors =>
    rw [← herrors]
    exact .unresolved (by simp [herrors])
  · next herrors =>
    dsimp only
    split
    · next e es haligned =>
      rw [← haligned]
      refine .unaligned herrors ?_
      show (align r.order m.graph r.rules m.resolution).errors ≠ []
      simp [haligned]
    · next haligned =>
      unfold conclude
      split
      · next hstable =>
        split
        · next hplaced => exact .converged herrors haligned hstable hplaced
        · next e es hastray =>
          rw [← hastray]
          refine .astray herrors haligned hstable ?_
          show misaligned r.order m.graph m.resolution
            (align r.order m.graph r.rules m.resolution).platforms ≠ []
          simp [hastray]
      · next hchanged =>
        split
        · next hle => exact .ceiling herrors haligned hchanged hle
        · next hle => exact .again herrors haligned hchanged (by omega)

/-- A pass ends if the levels of its build suffice and its rounds come to an end. -/
def Ends (lookup : Lookup σ) (r : Run) (it : Iteration) (s : σ) (m : Made) : Prop :=
  m.input = it ∧ ((r.build lookup it.constraints).run s).1 = some m.graph ∧
    resolve r.order m.graph it.constraints = some m.resolution

/-- Each exit leaves the stage that is named for it. -/
theorem stagedAlign_run (r : Run) (m : Made) (s : σ) (stage : Stage) :
    ∃ last, (stagedAlign r m.input m.graph m.resolution).run (s, stage) =
        (r.ofResolution m.input m.graph m.resolution, s, last) ∧
      last.state = (r.ofResolution m.input m.graph m.resolution).state := by
  generalize hstep : r.ofResolution m.input m.graph m.resolution = step
  have hexit := hstep ▸ exit_ofResolution r m
  unfold stagedAlign
  cases hexit with
  | unresolved herrors =>
      rw [if_pos herrors]
      exact ⟨.failed, rfl, rfl⟩
  | unaligned herrors haligned =>
      refine ⟨.failed, ?_, rfl⟩
      unfold Made.alignment at *
      simp [-StateT.run_bind, herrors, haligned]
  | astray herrors haligned hstable hastray =>
      refine ⟨.failed, ?_, rfl⟩
      unfold Made.astray Made.alignment at *
      simp [-StateT.run_bind, herrors, haligned, hstable, hastray]
  | converged herrors haligned hstable hastray =>
      refine ⟨.converged, ?_, rfl⟩
      unfold Made.astray Made.alignment at *
      simp [-StateT.run_bind, herrors, haligned, hstable, hastray, Made.resolved]
      rfl
  | ceiling herrors haligned hchanged hle =>
      refine ⟨.failed, ?_, rfl⟩
      unfold Made.alignment at *
      simp [-StateT.run_bind, herrors, haligned, hchanged, hle]
  | again herrors haligned hchanged hlt =>
      refine ⟨.iterating, ?_, rfl⟩
      unfold Made.alignment at *
      simp [-StateT.run_bind, herrors, haligned, hchanged, Nat.not_le_of_lt hlt]
      rfl

/-- The stage makes no difference to a pass, and it ends as the pass does. -/
theorem stagedStep_run (lookup : Lookup σ) (r : Run) (it : Iteration) (s : σ) (stage : Stage) :
    ∃ last, (r.stagedStep lookup it).run (s, stage) =
        (((r.step lookup it).run s).1, ((r.step lookup it).run s).2, last) ∧
      last.state = ((r.step lookup it).run s).1.state := by
  rw [step_run]
  unfold stagedStep
  rw [run_enter_bind, run_within_bind]
  cases hbuild : ((r.build lookup it.constraints).run s).1 with
  | none => exact ⟨.building, rfl, rfl⟩
  | some g =>
      unfold ofGraph
      dsimp only
      rw [run_enter_bind]
      cases hres : resolve r.order g it.constraints with
      | none => exact ⟨.resolving, rfl, rfl⟩
      | some res =>
          exact stagedAlign_run r ⟨it, g, res⟩ ((r.build lookup it.constraints).run s).2 .resolving

/-! ## The passes of a run -/

/-- A pass that goes on leads to the next one, with what it leaves. -/
def Leads (lookup : Lookup σ) (r : Run) (x y : Iteration × σ) : Prop :=
  (r.step lookup x.1).run x.2 = (.iterate y.1, y.2)

/-- The passes made from an iteration on, what they come to and what they leave. Their number is
not bounded. -/
inductive Drives (lookup : Lookup σ) (r : Run) :
    Iteration → σ × Stage → List Made → Outcome → σ × Stage → Prop
  | converged {it s m G t} : r.Ends lookup it s.1 m →
    (r.stagedStep lookup it).run s = (.converged G, t) → Drives lookup r it s [m] (.converged G) t
  | failed {it s m errors t} : r.Ends lookup it s.1 m →
    (r.stagedStep lookup it).run s = (.failed errors, t) →
    Drives lookup r it s [m] (.failed errors) t
  | again {it s m next t made o u} : r.Ends lookup it s.1 m →
    (r.stagedStep lookup it).run s = (.iterate next, t) → Drives lookup r next t made o u →
    Drives lookup r it s (m :: made) o u

/-- Passes that follow on each other, the last of which comes to an outcome. -/
structure Chain (r : Run) (it : Iteration) (made : List Made) (o : Outcome) : Prop where
  first : made.head?.map Made.input = some it
  numbered : ∀ k m, made[k]? = some m → m.input.number = it.number + k
  following : ∀ k m n, made[k]? = some m → made[k + 1]? = some n →
    n.input.constraints = r.next (m.alignment r)
  last : ∃ m, made.getLast? = some m ∧ m.input.number ≤ max r.maxIterations 1 ∧
    resolve r.order m.graph m.input.constraints = some m.resolution ∧ r.Exit m o.step

/-- What a run has done: the passes that it has made, in their order, its outcome and its stage. -/
structure Account (r : Run) (made : List Made) (o : Outcome) (stage : Stage) : Prop where
  pos : 0 < made.length
  bounded : made.length ≤ max r.maxIterations 1
  numbered : ∀ k m, made[k]? = some m → m.input.number = k + 1
  declared : ∀ m ∈ made, ∀ c ∈ r.declared, c ∈ m.input.constraints
  first : ∀ m, made[0]? = some m → m.input.constraints = r.declared
  following : ∀ k m n, made[k]? = some m → made[k + 1]? = some n → ∀ c,
    c ∈ n.input.constraints ↔ c ∈ r.declared ∨ c ∈ (m.alignment r).constraints
  converged : ∀ G, o = .converged G → ∃ m, made.getLast? = some m ∧ m.resolution.errors = [] ∧
    (m.alignment r).errors = [] ∧ m.astray r = [] ∧
    (∀ c, c ∈ m.input.constraints ↔ c ∈ r.declared ∨ c ∈ (m.alignment r).constraints) ∧
    G = m.resolved r ∧ G.iterations = made.length
  ceiling : ∀ errors n cs, o = .failed errors → .noConvergence n cs ∈ errors →
    errors = [.noConvergence n cs] ∧ n = made.length ∧ made.length = max r.maxIterations 1 ∧
    cs ≠ [] ∧ cs.Nodup ∧ ∃ m, made.getLast? = some m ∧ ∀ c, c ∈ cs ↔
      (c ∈ m.input.constraints ↔ ¬(c ∈ r.declared ∨ c ∈ (m.alignment r).constraints))
  failed : ∀ errors, o = .failed errors → errors ≠ []
  converged_iff : stage = .converged ↔ ∃ G, o = .converged G
  failed_iff : stage = .failed ↔ ∃ errors, o = .failed errors

/-! ### Passes that end -/

theorem step_of_ends {m : Made} (h : r.Ends lookup it s m) :
    ((r.step lookup it).run s).1 = r.ofResolution m.input m.graph m.resolution := by
  obtain ⟨rfl, hbuild, hres⟩ := h
  rw [step_run, hbuild]
  dsimp only
  unfold ofGraph
  rw [hres]

theorem exit_of_ends {m : Made} (h : r.Ends lookup it s m) :
    r.Exit m ((r.step lookup it).run s).1 := by
  rw [step_of_ends h]
  exact exit_ofResolution r m

theorem lt_of_leads {m : Made} (h : r.Ends lookup it s m) {next : Iteration}
    (hstep : ((r.step lookup it).run s).1 = .iterate next) :
    it.number < max r.maxIterations 1 ∧
      next = ⟨it.number + 1, r.next (m.alignment r)⟩ := by
  have hexit := exit_of_ends h
  rw [hstep] at hexit
  cases hexit with
  | again herrors haligned hchanged hlt =>
      rw [← h.1]
      exact ⟨hlt, rfl⟩

/-- The steps of a driven run are those of the run. -/
theorem step_of_staged {s t : σ × Stage} {step : Step}
    (h : (r.stagedStep lookup it).run s = (step, t)) :
    (r.step lookup it).run s.1 = (step, t.1) ∧ t.2.state = step.state := by
  obtain ⟨last, hrun, hstate⟩ := stagedStep_run lookup r it s.1 s.2
  rw [show (s.1, s.2) = s from rfl, h] at hrun
  obtain ⟨hstep, hleft⟩ := Prod.mk.inj hrun
  rw [hleft, hstep]
  exact ⟨rfl, hstate⟩

theorem mem_next (m : Made) (c : Constraint) : c ∈ r.next (m.alignment r) ↔
    c ∈ r.declared ∨ c ∈ (m.alignment r).constraints :=
  SortedSet.mem_union

/-- Only the ceiling tells that alignment still changes, and it tells in what. -/
theorem ceiling_of_exit {m : Made} {errors : List ResolveError}
    (hres : resolve r.order m.graph m.input.constraints = some m.resolution)
    (h : r.Exit m (.failed errors)) {n : Nat} {cs : List Constraint}
    (hmem : .noConvergence n cs ∈ errors) :
    errors = [.noConvergence n cs] ∧ n = m.input.number ∧ max r.maxIterations 1 ≤ n ∧
      cs ≠ [] ∧ cs.Nodup ∧ ∀ c, c ∈ cs ↔
        (c ∈ m.input.constraints ↔ ¬(c ∈ r.declared ∨ c ∈ (m.alignment r).constraints)) := by
  cases h with
  | unresolved => exact absurd hmem (Resolution.noConvergence_not_mem_errors hres n cs)
  | unaligned => exact absurd hmem (Alignment.noConvergence_not_mem_errors _ _ _ _ n cs)
  | astray => exact absurd hmem (noConvergence_not_mem_misaligned _ _ _ _ n cs)
  | ceiling _ _ hchanged hle =>
      obtain ⟨rfl, rfl⟩ := ResolveError.noConvergence.inj (List.mem_singleton.1 hmem)
      refine ⟨rfl, rfl, hle, SortedSet.toList_symmDiff_ne_nil hchanged,
        SortedSet.nodup_toList _, ?_⟩
      intro c
      rw [← mem_next]
      refine SortedSet.mem_symmDiff.trans ?_
      tauto

/-! ### Passes that follow on each other -/

theorem chain_singleton {m : Made} (h : r.Ends lookup it s m) {o : Outcome}
    (hnumber : it.number ≤ max r.maxIterations 1)
    (hstep : ((r.step lookup it).run s).1 = o.step) : r.Chain it [m] o := by
  obtain ⟨rfl, -, hres⟩ := id h
  refine ⟨rfl, ?_, ?_, m, rfl, hnumber, hres, hstep ▸ exit_of_ends h⟩
  · intro k m' hk
    obtain ⟨rfl, rfl⟩ : k = 0 ∧ m = m' := by
      cases k with
      | zero => exact ⟨rfl, Option.some.inj hk⟩
      | succ k => cases hk
    rfl
  · intro k m' n _ hn
    cases hn

theorem chain_cons {m : Made} {made : List Made} {o : Outcome} {next : Iteration}
    (h : r.Ends lookup it s m) (hstep : ((r.step lookup it).run s).1 = .iterate next)
    (hchain : r.Chain next made o) : r.Chain it (m :: made) o := by
  obtain ⟨-, rfl⟩ := lt_of_leads h hstep
  obtain ⟨rfl, -, -⟩ := id h
  have hfirst := hchain.first
  obtain ⟨n, rest, rfl⟩ : ∃ n rest, made = n :: rest := by
    cases made with
    | nil => cases hfirst
    | cons n rest => exact ⟨n, rest, rfl⟩
  refine ⟨rfl, ?_, ?_, ?_⟩
  · intro k m' hk
    cases k with
    | zero =>
        obtain rfl := Option.some.inj hk
        rfl
    | succ k =>
        have hnumber := hchain.numbered k m' hk
        dsimp only at hnumber
        omega
  · intro k m' n' hk hk'
    cases k with
    | zero =>
        obtain rfl := Option.some.inj hk
        obtain rfl := Option.some.inj hk'
        rw [Option.some.inj hfirst]
    | succ k => exact hchain.following k m' n' hk hk'
  · obtain ⟨last, hlast, hrest⟩ := hchain.last
    exact ⟨last, by rw [List.getLast?_cons_cons, hlast], hrest⟩

/-- The number of a pass never goes beyond the last one allowed. -/
theorem chain_of_drives {t u : σ × Stage} {made : List Made} {o : Outcome}
    (h : r.Drives lookup it t made o u) (hnumber : it.number ≤ max r.maxIterations 1) :
    r.Chain it made o ∧ u.2.state = o.state := by
  induction h with
  | converged hends hstep =>
      obtain ⟨hstep, hstate⟩ := step_of_staged hstep
      exact ⟨chain_singleton hends hnumber (by rw [hstep]; rfl), hstate⟩
  | failed hends hstep =>
      obtain ⟨hstep, hstate⟩ := step_of_staged hstep
      exact ⟨chain_singleton hends hnumber (by rw [hstep]; rfl), hstate⟩
  | again hends hstep _ ih =>
      obtain ⟨hstep, -⟩ := step_of_staged hstep
      have hfst := congrArg Prod.fst hstep
      obtain ⟨hlt, rfl⟩ := lt_of_leads hends hfst
      obtain ⟨hchain, hstate⟩ := ih (by dsimp only; omega)
      exact ⟨chain_cons hends hfst hchain, hstate⟩

/-- The number of a pass that leads on bounds the passes to come. -/
theorem length_of_chain {made : List Made} {o : Outcome} (h : r.Chain it made o) :
    ∃ m, made.getLast? = some m ∧ it.number + made.length = m.input.number + 1 := by
  obtain ⟨m, hm, -⟩ := h.last
  have hne : made ≠ [] := by
    rintro rfl
    cases hm
  have hlast : made[made.length - 1]? = some m := by
    rw [← List.getLast?_eq_getElem?, hm]
  have hnumber := h.numbered _ m hlast
  have hpos := List.length_pos_iff.2 hne
  exact ⟨m, hm, by omega⟩

theorem input_of_chain {made : List Made} {o : Outcome} (h : r.Chain it made o) {m : Made}
    (hm : made[0]? = some m) : m.input = it := by
  have hfirst := h.first
  rw [List.head?_eq_getElem?, hm] at hfirst
  exact Option.some.inj hfirst

/-- Every pass of a run has the declared constraints, the first one nothing else. -/
theorem declared_of_chain {made : List Made} {o : Outcome} (h : r.Chain r.initial made o) {m : Made}
    (hm : m ∈ made) {c : Constraint} (hc : c ∈ r.declared) : c ∈ m.input.constraints := by
  obtain ⟨k, hk⟩ := List.mem_iff_getElem?.1 hm
  cases k with
  | zero =>
      rw [input_of_chain h hk]
      exact hc
  | succ k =>
      have hlt : k < made.length := by
        have hlength := (List.getElem?_eq_some_iff.1 hk).1
        omega
      rw [h.following k _ m (List.getElem?_eq_getElem hlt) hk, mem_next]
      exact Or.inl hc

/-- A run makes just the passes that it drives. -/
theorem go_of_drives {t u : σ × Stage} {made : List Made} {o : Outcome}
    (h : r.Drives lookup it t made o u) {n : Nat} (hn : made.length ≤ n) :
    (r.go lookup n it).run t.1 = (o, u.1) := by
  induction h generalizing n with
  | converged hends hstep =>
      obtain ⟨n, rfl⟩ := Nat.exists_eq_add_of_le' hn
      rw [List.length_singleton, go_succ, (step_of_staged hstep).1]
  | failed hends hstep =>
      obtain ⟨n, rfl⟩ := Nat.exists_eq_add_of_le' hn
      rw [List.length_singleton, go_succ, (step_of_staged hstep).1]
  | @again _ _ _ _ _ made _ _ hends hstep _ ih =>
      rw [List.length_cons] at hn
      obtain ⟨n, rfl⟩ := Nat.exists_eq_add_of_le' (Nat.le_of_add_left_le hn)
      rw [go_succ, (step_of_staged hstep).1]
      exact ih (by omega)

/-- If every pass to come ends, some passes are driven: only so many numbers are left. -/
theorem exists_drives {lookup : Lookup σ} {r : Run} (n : Nat) {it : Iteration} {t : σ × Stage}
    (hnumber : it.number + n = max r.maxIterations 1)
    (h : ∀ y, Relation.ReflTransGen (r.Leads lookup) (it, t.1) y → ∃ m, r.Ends lookup y.1 y.2 m) :
    ∃ made o u, r.Drives lookup it t made o u := by
  induction n using Nat.strongRecOn generalizing it t with
  | ind n ih =>
      obtain ⟨m, hends⟩ : ∃ m, r.Ends lookup it t.1 m := h (it, t.1) .refl
      obtain ⟨last, hstaged, -⟩ := stagedStep_run lookup r it t.1 t.2
      have hexit := exit_of_ends hends
      cases hstep : ((r.step lookup it).run t.1).1 with
      | unsettled =>
          rw [hstep] at hexit
          cases hexit
      | converged G => exact ⟨[m], .converged G, _, .converged hends (hstep ▸ hstaged)⟩
      | failed errors => exact ⟨[m], .failed errors, _, .failed hends (hstep ▸ hstaged)⟩
      | iterate next =>
          obtain ⟨hlt, hnext⟩ := lt_of_leads hends hstep
          have hleads : r.Leads lookup (it, t.1) (next, ((r.step lookup it).run t.1).2) :=
            Prod.ext hstep rfl
          have hleft : next.number + (n - 1) = max r.maxIterations 1 := by
            rw [hnext]
            dsimp only
            omega
          obtain ⟨made, o, u, hdrives⟩ := ih (n - 1) (by omega)
            (t := (((r.step lookup it).run t.1).2, last)) hleft fun y hy => h y (.head hleads hy)
          exact ⟨m :: made, o, u, .again hends (hstep ▸ hstaged) hdrives⟩

/-- A stage that stands for the state of an outcome is converged or failed as the outcome is. -/
theorem ended_iff_of_state {stage : Stage} {o : Outcome} (h : stage.state = o.state) :
    (stage = .converged ↔ ∃ G, o = .converged G) ∧
      (stage = .failed ↔ ∃ errors, o = .failed errors) := by
  cases o with
  | converged G => cases stage <;> simp [Outcome.state, Stage.state] at h ⊢
  | failed errors => cases stage <;> simp [Outcome.state, Stage.state] at h ⊢
  | unsettled => cases stage <;> simp [Outcome.state, Stage.state] at h ⊢

theorem account_of_drives {lookup : Lookup σ} {r : Run} {t u : σ × Stage} {made : List Made}
    {o : Outcome} (h : r.Drives lookup r.initial t made o u) : r.Account made o u.2 := by
  obtain ⟨hchain, hstate⟩ := chain_of_drives h (Nat.le_max_right _ _)
  obtain ⟨last, hlast, hle, hres, hexit⟩ := hchain.last
  obtain ⟨last', hlast', hlength⟩ := length_of_chain hchain
  obtain rfl := Option.some.inj (hlast.symm.trans hlast')
  have hinitial : r.initial.number = 1 := rfl
  constructor
  case pos =>
    apply List.length_pos_iff.2
    rintro rfl
    cases hlast
  case bounded => omega
  case numbered =>
    intro k m hm
    rw [hchain.numbered k m hm, hinitial, Nat.add_comm]
  case declared => exact fun m hm c hc => declared_of_chain hchain hm hc
  case first =>
    intro m hm
    rw [input_of_chain hchain hm]
    rfl
  case following =>
    intro k m n hm hn c
    rw [hchain.following k m n hm hn, mem_next]
  case converged =>
    rintro G rfl
    cases hexit with
    | converged herrors haligned hstable hastray =>
        refine ⟨last, hlast, herrors, haligned, hastray, fun c => ?_, rfl, ?_⟩
        · rw [← hstable, mem_next]
        · show last.input.number = made.length
          omega
  case ceiling =>
    rintro errors n cs rfl hmem
    obtain ⟨herrors, rfl, hmax, hne, hnodup, hcs⟩ := ceiling_of_exit hres hexit hmem
    exact ⟨herrors, by omega, by omega, hne, hnodup, last, hlast, hcs⟩
  case failed =>
    rintro errors rfl
    cases hexit with
    | unresolved herrors => exact herrors
    | unaligned _ haligned => exact haligned
    | astray _ _ _ hastray => exact hastray
    | ceiling => exact List.cons_ne_nil _ _
  case converged_iff => exact (ended_iff_of_state hstate).1
  case failed_iff => exact (ended_iff_of_state hstate).2

/-- If each pass of a run ends, so does the run, and it has an account of its passes. -/
theorem accounted_of_ends (lookup : Lookup σ) (r : Run) (s : σ)
    (h : ∀ y, Relation.ReflTransGen (r.Leads lookup) (r.initial, s) y →
      ∃ m, r.Ends lookup y.1 y.2 m) :
    (∃ made o t, r.Drives lookup r.initial (s, .initial) made o t) ∧
      ∀ made o t, r.Drives lookup r.initial (s, .initial) made o t →
        (r.run lookup).run s = (o, t.1) ∧ r.Account made o t.2 := by
  constructor
  · obtain ⟨n, hn⟩ := Nat.exists_eq_add_of_le (Nat.le_max_right r.maxIterations 1)
    exact exists_drives n hn.symm h
  · intro made o t hdrives
    have haccount := account_of_drives hdrives
    exact ⟨go_of_drives hdrives haccount.bounded, haccount⟩

/-- A run that comes to an outcome has ended each of its passes. -/
theorem ends_of_settled {n : Nat} {it : Iteration} {s : σ}
    (h : ((r.go lookup n it).run s).1 ≠ .unsettled) {y : Iteration × σ}
    (hy : Relation.ReflTransGen (r.Leads lookup) (it, s) y) : ∃ m, r.Ends lookup y.1 y.2 m := by
  induction n generalizing it s with
  | zero => exact absurd rfl h
  | succ n ih =>
      rw [go_succ_run] at h
      rcases hy.cases_head with rfl | ⟨⟨next, t⟩, hleads, hy⟩
      · rw [step_run] at h
        show ∃ m, r.Ends lookup it s m
        cases hbuild : ((r.build lookup it.constraints).run s).1 with
        | none => exact absurd (by rw [hbuild]) h
        | some g =>
            cases hres : resolve r.order g it.constraints with
            | none => exact absurd (by rw [hbuild]; simp [ofGraph, hres]) h
            | some res => exact ⟨⟨it, g, res⟩, rfl, hbuild, hres⟩
      · have hstep : (r.step lookup it).run s = (.iterate next, t) := hleads
        rw [hstep] at h
        exact ih h hy

end Run

/-! ### A run of two passes -/

namespace Sample

/-- `auth` and `base` are on a platform, and `base` is behind in the first pass. -/
def behindRun : Run :=
  .ofRequest pair {} lagging

def behindLookup : Lookup Cache :=
  Cache.lookup (lagging.provider behindRun.order)

end Sample

theorem Run.accounted_over_lagging : ∃ made G t,
    (∀ y, Relation.ReflTransGen (Sample.behindRun.Leads Sample.behindLookup)
      (Sample.behindRun.initial, {}) y →
        ∃ m, Sample.behindRun.Ends Sample.behindLookup y.1 y.2 m) ∧
    Sample.behindRun.Drives Sample.behindLookup Sample.behindRun.initial ({}, .initial) made
      (.converged G) t ∧
    made.length = 2 ∧ Sample.behindRun.Account made (.converged G) t.2 := by
  have hcond : ((Sample.behindRun.run Sample.behindLookup).run {}).1.graph?.any
      (·.iterations = 2) = true := by
    decide +kernel
  obtain ⟨G, hgraph, hcount⟩ := (Option.any_eq_true _ _).1 hcond
  have hconverged : ((Sample.behindRun.run Sample.behindLookup).run {}).1 = .converged G :=
    Outcome.eq_of_graph? hgraph
  have hsettled : ((Sample.behindRun.run Sample.behindLookup).run {}).1 ≠ .unsettled := by
    simp [hconverged]
  have hends := fun y (hy : Relation.ReflTransGen _ _ y) => Run.ends_of_settled hsettled hy
  obtain ⟨⟨made, o, t, hdrives⟩, hall⟩ := accounted_of_ends Sample.behindLookup _ _ hends
  obtain ⟨hrun, haccount⟩ := hall made o t hdrives
  obtain rfl : Outcome.converged G = o := by
    rw [← hconverged, hrun]
  obtain ⟨m, -, -, -, -, -, -, hiterations⟩ := haccount.converged G rfl
  refine ⟨made, G, t, hends, hdrives, ?_, haccount⟩
  rw [← hiterations]
  exact of_decide_eq_true hcount

end Lockstep
