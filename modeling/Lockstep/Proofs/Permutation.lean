import Lockstep.Proofs.Assembly
import Lockstep.Proofs.Caching
import Lockstep.Proofs.Ending
import Lockstep.Proofs.Outcomes
import Lockstep.Proofs.Twins
import Mathlib.Data.List.Perm.Basic

/-!
# The order of declarations

A request lists its dependencies, constraints and rules in some order, and so do
the descriptors of a catalog. A run over the same lists in another order comes
to the same outcome, but for the order of the reports
(`Request.resolveOver_shuffled`): the graphs of a pass are twins, and alignment
adds up members in any order.
-/

namespace Lockstep

/-! ## The same outcome -/

/-- The same graph, with the reports in some order. -/
structure ResolvedGraph.Same (g g' : ResolvedGraph) : Prop where
  root : g'.root = g.root
  modules : g'.modules = g.modules
  platforms : g'.platforms = g.platforms
  conflicts : g'.conflicts = g.conflicts
  iterations : g'.iterations = g.iterations
  reports : g.reports.toList.Perm g'.reports.toList

/-- The same outcome, but for the order of reports. -/
inductive Outcome.Same : Outcome → Outcome → Prop
  | converged {g g' : ResolvedGraph} : g.Same g' → Same (.converged g) (.converged g')
  | failed (errors : List ResolveError) : Same (.failed errors) (.failed errors)
  | unsettled : Same .unsettled .unsettled

/-- A pass comes to the same, but for the order of reports. -/
inductive Step.Same : Step → Step → Prop
  | converged {g g' : ResolvedGraph} : g.Same g' → Same (.converged g) (.converged g')
  | iterate (next : Iteration) : Same (.iterate next) (.iterate next)
  | failed (errors : List ResolveError) : Same (.failed errors) (.failed errors)
  | unsettled : Same .unsettled .unsettled

/-- The same choices, and the same reports in some order. -/
structure Resolution.Same (g g' : CandidateGraph) (res res' : Resolution) : Prop where
  selections : res'.selections = res.selections
  conflicts : res'.conflicts = res.conflicts
  errors : res'.errors = res.errors
  reports : (ResolvedGraph.reportsOf g res).Perm (ResolvedGraph.reportsOf g' res')

theorem Resolution.Same.ofResolution {g g' : CandidateGraph} {res res' : Resolution}
    (h : res.Same g g' res') (hroot : g'.root = g.root) (platforms : List AlignedPlatform)
    (iterations : Nat) : (ResolvedGraph.ofResolution g res platforms iterations).Same
      (.ofResolution g' res' platforms iterations) := by
  have hbare : ResolvedGraph.bare g' res' = ResolvedGraph.bare g res := by
    unfold ResolvedGraph.bare ResolvedGraph.modulesOf
    rw [hroot, h.selections]
  obtain ⟨reports, links, heq⟩ := ResolvedGraph.ofResolution_eq g res platforms iterations
  obtain ⟨reports', links', heq'⟩ := ResolvedGraph.ofResolution_eq g' res' platforms iterations
  constructor
  case root => rw [ResolvedGraph.root_ofResolution, ResolvedGraph.root_ofResolution, hroot]
  case modules =>
    rw [heq, heq', hbare]
    rfl
  case platforms => rw [heq, heq']
  case conflicts =>
    rw [heq, heq']
    exact h.conflicts
  case iterations => rw [heq, heq']
  case reports =>
    rw [ResolvedGraph.toList_reports_ofResolution, ResolvedGraph.toList_reports_ofResolution]
    exact h.reports

/-! ## Reports -/

namespace ResolvedGraph

/-- The report on an edge, by what it says. -/
def reportOn? (order : VersionOrder) (live : Live) (round : Round)
    (k : Coordinates × Dependency × Bool) : Option EdgeReport :=
  let report (selected : Option String) (status : EdgeStatus) (reason : Reason) : EdgeReport :=
    { source := k.1
      target := k.2.1.target
      requested := k.2.1.requirement.text
      selected
      status
      reason
      forced := k.2.1.forced
      synthetic := k.2.2 }
  if (Live.exclusionsOf live.exclusions k.1).exclude k.2.1.target then
    some (report none .excluded .byAncestorExclusion)
  else (round.selections.get? k.2.1.target).map fun s =>
    report (some s.version)
      (if k.2.1.requirement.accepts order s.version then .honored else .overridden) s.reason

variable {rules : PlatformRules} {dependencies : List (Dependency × Bool)} {g : CandidateGraph}
  {expanded : SortedSet Coordinates} {guide : Guide} {live : Live} {order : VersionOrder}
  {round : Round}

/-- What is reported on an edge depends on what it says alone. -/
theorem bind_report?_outcome? (e : EdgeId) :
    (Resolution.outcome? order g live round e).bind (report? g) =
      (g.edge? e).bind fun edge => reportOn? order live round edge.content := by
  unfold Resolution.outcome?
  cases hedge : g.edge? e with
  | none => rfl
  | some edge =>
      unfold reportOn?
      rw [Option.bind_some, Option.bind_some]
      unfold Edge.content Edge.target
      dsimp only
      split
      · unfold report? Resolution.excludedOutcome
        rw [Option.bind_some, hedge]
        rfl
      · cases round.selections.get? edge.dependency.target with
        | none => rfl
        | some s =>
            unfold report? Resolution.takenOutcome
            rw [Option.map_some, Option.bind_some, hedge]
            rfl

theorem reportsOf_perm (harena : g.Arena rules dependencies expanded)
    (hwalk : walk g guide = some live) :
    (reportsOf g (.ofRound order g live round)).Perm
      ((g.contents (Live.edgeIds g live)).filterMap (reportOn? order live round)) := by
  unfold reportsOf CandidateGraph.contents
  rw [List.filterMap_map, List.filterMap_filterMap]
  refine ((Resolution.outcomes_perm_filterMap harena hwalk).filterMap _).trans (List.Perm.of_eq ?_)
  rw [List.filterMap_filterMap]
  exact congrArg (List.filterMap · _) (funext bind_report?_outcome?)

end ResolvedGraph

namespace CandidateGraph.Twin

variable {g g' : CandidateGraph} {R : Region} {declared : List Query} {live live' : Live}
  {rules rules' : PlatformRules} {res res' : Resolution} (h : g.Twin g' R declared)

include h

theorem edgeIds_perm (halike : live.Alike live') :
    (g.contents (Live.edgeIds g live)).Perm (g'.contents (Live.edgeIds g' live')) := by
  have hsplit : ∀ (g : CandidateGraph) (live : Live), g.contents (Live.edgeIds g live) =
      g.contents g.rootEdges ++ live.nodes.toList.flatMap fun c => g.contents (g.outgoing c) := by
    intro g live
    unfold contents Live.edgeIds
    rw [List.filterMap_append, List.map_append, List.filterMap_flatMap, List.map_flatMap]
  rw [hsplit, hsplit, halike.nodes]
  exact h.rootEdges.append (List.Perm.flatMap_left _ fun c _ => h.outgoing c)

/-- Rounds that choose the same are the same resolution. -/
theorem same_ofRound {rules₁ rules₂ : PlatformRules} {own own' : List (Dependency × Bool)}
    {expanded expanded' : SortedSet Coordinates} (harena : g.Arena rules₁ own expanded)
    (harena' : g'.Arena rules₂ own' expanded') {guide guide' : Guide}
    (hwalk : walk g guide = some live) (hwalk' : walk g' guide' = some live')
    (halike : live.Alike live') (order : VersionOrder) (round : Round) :
    (Resolution.ofRound order g live round).Same g g' (.ofRound order g' live' round) := by
  have hreportOn : ResolvedGraph.reportOn? order live' round =
      ResolvedGraph.reportOn? order live round := by
    funext k
    unfold ResolvedGraph.reportOn?
    rw [halike.exclusions]
  refine ⟨rfl, rfl, rfl, ?_⟩
  refine (ResolvedGraph.reportsOf_perm harena hwalk).trans
    (List.Perm.trans ?_ (ResolvedGraph.reportsOf_perm harena' hwalk').symm)
  rw [hreportOn]
  exact (h.edgeIds_perm halike).filterMap _

/-! ## Alignment -/

theorem platformsOf_perm (hrules : rules.Perm rules') (id : ModuleId) (s : Selection) :
    (Alignment.platformsOf g rules id s).Perm (Alignment.platformsOf g' rules' id s) := by
  have hmemberships : (rules.memberships id).Perm (rules'.memberships id) := hrules.filter _
  have hnone := h.isNone_descriptor? (id.atVersion s.version)
  unfold Alignment.platformsOf
  dsimp only
  cases hd : g.descriptor? (id.atVersion s.version) with
  | none =>
      rw [hd] at hnone
      rw [Option.isNone_iff_eq_none.1 hnone]
      exact ((hmemberships.filterMap _).append_right _).filter _
  | some d =>
      obtain ⟨d', hd', hshuffled⟩ := h.exists_descriptor hd
      rw [hd']
      change List.Perm (if d.category.isPlatform = true then _ else _)
        (if d'.category.isPlatform = true then _ else _)
      rw [hshuffled.category]
      split
      · exact List.Perm.refl _
      · exact ((hmemberships.filterMap _).append (hshuffled.belongsTo.filterMap _)).filter _

omit h in
/-- Members are added up in any order. -/
theorem addMember_comm (id : ModuleId) (s : Selection) (m : SortedMap ModuleId PlatformMembers)
    (p q : ModuleId × Bool) : Alignment.addMember id s (Alignment.addMember id s m p) q =
      Alignment.addMember id s (Alignment.addMember id s m q) p := by
  refine SortedMap.ext fun t => ?_
  unfold Alignment.addMember
  simp only [SortedMap.get?_alter]
  by_cases hpq : p.1 = q.1
  · rw [hpq, if_pos rfl, if_pos rfl]
    split
    · dsimp only [Option.getD_some]
      rw [Bool.or_assoc, Bool.or_assoc, Bool.or_comm p.2 q.2]
    · rfl
  · rw [if_neg hpq, if_neg (Ne.symm hpq)]
    by_cases htp : t = p.1
    · have htq : t ≠ q.1 := fun heq => hpq (htp.symm.trans heq)
      rw [if_neg htq, if_pos htp, if_pos htp]
    · rw [if_neg htp, if_neg htp]

theorem membersOf_eq (hrules : rules.Perm rules') (hselections : res'.selections = res.selections) :
    Alignment.membersOf g' rules' res' = Alignment.membersOf g rules res := by
  unfold Alignment.membersOf
  rw [hselections]
  refine congrArg (List.foldl · _ _) (funext fun m => funext fun x => ?_)
  exact ((h.platformsOf_perm hrules x.1 x.2).foldl_eq'
    (fun p _ q _ m => addMember_comm x.1 x.2 m p q) m).symm

theorem align_eq (order : VersionOrder) (hrules : rules.Perm rules')
    (hselections : res'.selections = res.selections) :
    align order g' rules' res' = align order g rules res := by
  unfold align
  rw [h.membersOf_eq hrules hselections]

theorem misaligned_eq (order : VersionOrder) (hselections : res'.selections = res.selections)
    (platforms : List AlignedPlatform) :
    misaligned order g' res' platforms = misaligned order g res platforms := by
  have hsome : ∀ c, (g'.descriptor? c).isSome = (g.descriptor? c).isSome := by
    intro c
    rw [← Option.not_isNone, ← Option.not_isNone, h.isNone_descriptor?]
  unfold misaligned AlignedPlatform.astray AlignedPlatform.isAstray Resolution.versionOf?
  simp only [hsome, hselections]

end CandidateGraph.Twin

/-! ## Runs -/

/-- The same run with dependencies and rules in another order. -/
structure Run.Shuffled (r r' : Run) : Prop where
  root : r'.root = r.root
  dependencies : r.dependencies.Perm r'.dependencies
  declared : r'.declared = r.declared
  rules : r.rules.Perm r'.rules
  maxIterations : r'.maxIterations = r.maxIterations
  order : r'.order = r.order

namespace Run.Shuffled

variable {r r' : Run} (h : r.Shuffled r') {it : Iteration}

include h

section

variable {g g' : CandidateGraph} {R : Region}
  (htwin : g.Twin g' R (it.constraints.toList.map fun k => ⟨k.target, k.requirement⟩))

include htwin

theorem conclude {res res' : Resolution} (hres : res.Same g g' res') (a : Alignment) :
    (r.conclude it g res a).Same (r'.conclude it g' res' a) := by
  have hnext : r'.next a = r.next a := by
    unfold Run.next
    rw [h.declared]
  unfold Run.conclude
  rw [hnext, h.maxIterations, h.order, htwin.misaligned_eq r.order hres.selections]
  split
  · cases misaligned r.order g res a.platforms with
    | nil => exact .converged (hres.ofResolution htwin.root _ _)
    | cons e es => exact .failed _
  · split
    · exact .failed _
    · exact .iterate _

theorem ofResolution {res res' : Resolution} (hres : res.Same g g' res') :
    (r.ofResolution it g res).Same (r'.ofResolution it g' res') := by
  unfold Run.ofResolution
  rw [hres.errors]
  cases res.errors with
  | cons e es => exact .failed _
  | nil =>
      dsimp only
      rw [h.order, htwin.align_eq r.order h.rules hres.selections]
      cases (align r.order g r.rules res).errors with
      | cons e es => exact .failed _
      | nil => exact h.conclude htwin hres _

end

/-- Twins of the same pass come to the same. -/
theorem ofGraph {t t' : Task} {b b' : Builder} (htask : t.Shuffled t') (hb : t.Finished b)
    (hb' : t'.Finished b') (hsteady : t.provider.Steady) (hsteady' : t'.provider.Steady)
    (hconstraints : t.constraints = it.constraints) :
    (r.ofGraph it b.graph).Same (r'.ofGraph it b'.graph) := by
  have htwin := htask.twin hsteady hsteady' hb hb'
  rw [show t.declared = it.constraints.toList.map fun k => ⟨k.target, k.requirement⟩ by
    unfold Task.declared
    rw [hconstraints]] at htwin
  unfold Run.ofGraph resolve
  rw [htwin.bound_eq, h.order]
  cases hrun : Rounds.run r.order b.graph it.constraints
      (Rounds.bound b.graph it.constraints) {} with
  | none =>
      cases hrun' : Rounds.run r.order b'.graph it.constraints
          (Rounds.bound b.graph it.constraints) {} with
      | none => exact .unsettled
      | some last =>
          obtain ⟨live, hback, -⟩ := htwin.symm.run (Rounds.provided_first _) hrun'
          rw [hrun] at hback
          cases hback
  | some last =>
      obtain ⟨live, round⟩ := last
      obtain ⟨live', hrun', halike⟩ := htwin.run (Rounds.provided_first _) hrun
      obtain ⟨guide, hwalk⟩ := Rounds.exists_walk hrun
      obtain ⟨guide', hwalk'⟩ := Rounds.exists_walk hrun'
      rw [hrun']
      exact h.ofResolution htwin (htwin.same_ofRound hb.tidy.arena hb'.tidy.arena hwalk hwalk'
        halike r.order round)

variable {catalog catalog' : Catalog} (hcatalog : catalog.Shuffled catalog')
  (horder : r.order.Oriented) (hreach : r.reach = catalog.reach r.rules)
  (hreach' : r'.reach = catalog'.reach r'.rules)

include hcatalog horder hreach hreach'

theorem step (it : Iteration) :
    Step.Same ((r.step (catalog.provider r.order).lookup it).run ()).1
      ((r'.step (catalog'.provider r'.order).lookup it).run ()).1 := by
  have htask : (r.task (catalog.provider r.order) it.constraints).Shuffled
      (r'.task (catalog'.provider r'.order) it.constraints) := by
    refine ⟨?_, h.rules, h.root, h.dependencies, rfl⟩
    rw [h.order]
    exact hcatalog.provider r.order
  obtain ⟨b, hb, hbuild⟩ := Run.exists_finished r.order hreach it.constraints ()
  obtain ⟨b', hb', hbuild'⟩ := Run.exists_finished r'.order hreach' it.constraints ()
  rw [Run.step_run, Run.step_run, hbuild, hbuild']
  exact h.ofGraph htask hb hb' (Catalog.steady_provider horder)
    (Catalog.steady_provider (h.order ▸ horder)) rfl

theorem go (passes : Nat) (it : Iteration) :
    Outcome.Same ((r.go (catalog.provider r.order).lookup passes it).run ()).1
      ((r'.go (catalog'.provider r'.order).lookup passes it).run ()).1 := by
  induction passes generalizing it with
  | zero => exact .unsettled
  | succ passes ih =>
      rw [Run.go_succ_run, Run.go_succ_run]
      have hstep := h.step hcatalog horder hreach hreach' it
      generalize ((r.step (catalog.provider r.order).lookup it).run ()).1 = s,
        ((r'.step (catalog'.provider r'.order).lookup it).run ()).1 = s' at hstep
      cases hstep with
      | converged hsame => exact .converged hsame
      | iterate next => exact ih next
      | failed errors => exact .failed errors
      | unsettled => exact .unsettled

end Run.Shuffled

/-! ## Requests -/

/-- The same request with its lists in another order. -/
structure Request.Shuffled (request request' : Request) : Prop where
  root : request'.root = request.root
  overrides : request'.overrides = request.overrides
  dependencies : request.dependencies.Perm request'.dependencies
  constraints : request.constraints.Perm request'.constraints
  rules : request.rules.Perm request'.rules

theorem Request.Shuffled.ofRequest {request request' : Request} (h : request.Shuffled request')
    (settings : Settings) (catalog catalog' : Catalog) :
    (Run.ofRequest request settings catalog).Shuffled (.ofRequest request' settings catalog') := by
  unfold Run.ofRequest
  constructor
  case root => exact h.root
  case dependencies => exact h.dependencies
  case declared => exact (SortedSet.ofList_eq_of_perm (h.constraints.map _)).symm
  case rules => exact h.rules
  case maxIterations =>
    dsimp only
    rw [h.overrides]
  case order =>
    dsimp only
    rw [h.overrides]

/-- The order of declarations makes no difference to the outcome, but for the order of reports. -/
theorem Request.resolveOver_shuffled {request request' : Request} {catalog catalog' : Catalog}
    (h : request.Shuffled request') (hcatalog : catalog.Shuffled catalog') (settings : Settings) :
    (request.resolveOver settings catalog).Same (request'.resolveOver settings catalog') := by
  have hrun := h.ofRequest settings catalog catalog'
  rw [Request.resolveOver_eq, Request.resolveOver_eq]
  unfold Run.run
  rw [hrun.maxIterations, show (Run.ofRequest request' settings catalog').initial =
    (Run.ofRequest request settings catalog).initial by
      unfold Run.initial
      rw [hrun.declared]]
  exact hrun.go hcatalog (Scheme.oriented _) rfl rfl _ _

/-! ### Lists turned round -/

namespace Sample

def suite : ModuleId :=
  id "suite"

/-- A request that puts two modules on a platform. -/
def pair : Request where
  root
  dependencies := [dependency "core" "1", dependency "auth" "1"]
  rules := [⟨.one (id "auth"), suite, .virtual⟩, ⟨.one (id "base"), suite, .virtual⟩]

def pairTurned : Request :=
  { pair with dependencies := pair.dependencies.reverse, rules := pair.rules.reverse }

def lagging : Catalog :=
  ⟨[describe "core" "1" [dependency "base" "1", dependency "auth" "2"],
    describe "auth" "1" [], describe "auth" "2" [],
    describe "base" "1" [], describe "base" "2" [dependency "core" "1"]]⟩

def laggingTurned : Catalog :=
  ⟨lagging.modules.map fun d => { d with dependencies := d.dependencies.reverse }⟩

theorem pair_shuffled : pair.Shuffled pairTurned :=
  ⟨rfl, rfl, (List.reverse_perm _).symm, List.Perm.refl _, (List.reverse_perm _).symm⟩

theorem lagging_shuffled : lagging.Shuffled laggingTurned := by
  refine List.forall₂_map_right_iff.2 (List.forall₂_same.2 fun d _ => ?_)
  exact ⟨rfl, rfl, (List.reverse_perm _).symm, List.Perm.refl _, List.Perm.refl _⟩

end Sample

theorem Request.resolveOver_shuffled_of_lagging :
    (Sample.pair.resolveOver {} Sample.lagging).state = .converged ∧
      (Sample.pair.resolveOver {} Sample.lagging).Same
        (Sample.pairTurned.resolveOver {} Sample.laggingTurned) :=
  ⟨by decide +kernel, resolveOver_shuffled Sample.pair_shuffled Sample.lagging_shuffled {}⟩

end Lockstep
