import Lockstep.Proofs.Bounding
import Lockstep.Proofs.Convergence
import Lockstep.Proofs.Members
import Lockstep.Proofs.Noting
import Lockstep.Proofs.Permutation

/-!
# Constraints on modules that no edge leads to

A constraint on a module that no edge of a run leads to makes no difference to
what the run comes to, nor to what its passes ask for
(`Request.resolveOver_with_absent`). It gives no probe to the builder, no demand
to a round (`Demands.gather_congr`), and between the passes it is on both sides
of the comparison (`Run.conclude_insert`).
-/

namespace Lockstep

namespace SortedSet

variable {α : Type} [Ord α] [Std.TransOrd α] [Std.LawfulEqOrd α] {s t : SortedSet α} {a : α}

theorem insert_of_mem (h : a ∈ s) : s.insert a = s :=
  ext fun b => by
    rw [mem_insert]
    exact ⟨fun hb => hb.elim (fun heq => heq ▸ h) fun hb => hb, Or.inr⟩

theorem insert_eq_insert_iff (hs : a ∉ s) (ht : a ∉ t) : s.insert a = t.insert a ↔ s = t := by
  refine ⟨fun h => ext fun b => ?_, fun h => h ▸ rfl⟩
  have hb : b ∈ s.insert a ↔ b ∈ t.insert a := by rw [h]
  rw [mem_insert, mem_insert] at hb
  by_cases heq : b = a
  · rw [heq]
    exact iff_of_false hs ht
  · simpa only [heq, false_or] using hb

theorem insert_union (s t : SortedSet α) (a : α) : (s.insert a).union t = (s.union t).insert a :=
  ext fun b => by rw [mem_union, mem_insert, mem_insert, mem_union, or_assoc]

theorem symmDiff_insert (hs : a ∉ s) (ht : a ∉ t) :
    (s.insert a).symmDiff (t.insert a) = s.symmDiff t := by
  refine ext fun b => ?_
  rw [mem_symmDiff, mem_symmDiff, mem_insert, mem_insert]
  by_cases heq : b = a
  · subst heq
    simp [hs, ht]
  · simp [heq]

end SortedSet

/-! ## Rounds -/

variable {order : VersionOrder} {g : CandidateGraph} {absent : ModuleId}
  {ks ks' : SortedSet Constraint}

/-- The constraints on all modules but one are the same. -/
def Constraint.SameBut (absent : ModuleId) (ks ks' : SortedSet Constraint) : Prop :=
  ks.filter (·.target != absent) = ks'.filter (·.target != absent)

theorem Constraint.sameBut_insert (ks : SortedSet Constraint) (k : Constraint) :
    SameBut k.target ks (ks.insert k) := by
  refine SortedSet.ext fun k' => ?_
  rw [SortedSet.mem_filter, SortedSet.mem_filter, SortedSet.mem_insert, bne_iff_ne]
  refine and_congr_left fun hne => (or_iff_right ?_).symm
  rintro rfl
  exact hne rfl

/-- Builders that start with the same constraints but for those on one module are alike. -/
theorem Builder.alike_start (root : Coordinates) (dependencies : List Dependency)
    (hsame : Constraint.SameBut absent ks ks') :
    Alike absent (start root dependencies ks) (start root dependencies ks') := by
  have hrest (ks : SortedSet Constraint) :
      (ks.toList.map fun c => (⟨c.target, c.requirement⟩ : Query)).filter (·.target != absent) =
        (ks.filter (·.target != absent)).toList.map fun c => ⟨c.target, c.requirement⟩ :=
    List.filter_map
  refine ⟨_, rfl, ?_⟩
  change (ks.toList.map fun c => (⟨c.target, c.requirement⟩ : Query)).filter _ =
    (ks'.toList.map fun c => (⟨c.target, c.requirement⟩ : Query)).filter _
  rw [hrest, hrest, hsame]

namespace Demands

theorem constraining_congr (hsame : Constraint.SameBut absent ks ks') {id : ModuleId}
    (hid : id ≠ absent) : constraining g id ks.toList = constraining g id ks'.toList := by
  have hrest (ks : SortedSet Constraint) : constraining g id ks.toList =
      constraining g id (ks.filter (·.target != absent)).toList := by
    unfold constraining
    change _ = (ks.toList.filter _).filter _
    rw [List.filter_filter]
    refine List.filter_congr fun k _ => ?_
    by_cases hk : k.target = id
    · simp [hk, hid]
    · simp [hk]
  rw [hrest ks, hsame, ← hrest ks']

/-- Constraints on a module that no edge leads to are no demands. -/
theorem gather_congr {guide : Guide} {live : Live} (hwalk : walk g guide = some live)
    (habsent : g.leads absent = false) (hsame : Constraint.SameBut absent ks ks') :
    gather g live guide ks' = gather g live guide ks := by
  refine SortedMap.ext fun id => ?_
  rw [get?_gather, get?_gather]
  cases hes : live.incoming.get? id with
  | none => rfl
  | some es =>
      have hid : id ≠ absent := by
        rintro rfl
        obtain ⟨e, -, edge, hedge, htarget, -⟩ := Live.exists_mem_incoming hwalk hes
        rw [CandidateGraph.leads_iff.2 ⟨e, edge, hedge, htarget⟩] at habsent
        cases habsent
      have hsplit (ks : SortedSet Constraint) : constraining g id (applied g live guide ks) =
          constraining g id (live.nodes.toList.flatMap (published g live guide)) ++
            constraining g id ks.toList := List.filter_append _ _
      rw [hsplit, hsplit, constraining_congr hsame hid]

end Demands

namespace Rounds

/-- Rounds that end come to the same with any number of them that suffices. -/
theorem run_agree {r : Rounds} {rounds rounds' : Nat} {x y : Live × Round}
    (h : r.run order g ks rounds = some x) (h' : r.run order g ks rounds' = some y) : x = y := by
  induction rounds generalizing rounds' r with
  | zero => cases h
  | succ rounds ih =>
      cases rounds' with
      | zero => cases h'
      | succ rounds' =>
          unfold run at h h'
          cases hstep : r.step order g ks with
          | none =>
              rw [hstep] at h
              cases h
          | some progress =>
              rw [hstep] at h h'
              cases progress with
              | settled live round => exact Option.some.inj (h.symm.trans h')
              | again next => exact ih h h'

variable (habsent : g.leads absent = false) (hsame : Constraint.SameBut absent ks ks')

include habsent hsame

theorem step_congr (r : Rounds) : r.step order g ks' = r.step order g ks := by
  unfold step
  cases hwalk : walk g r.guide with
  | none => rfl
  | some live =>
      dsimp only [Option.bind_eq_bind, Option.bind_some]
      rw [Demands.gather_congr hwalk habsent hsame]

theorem run_congr (rounds : Nat) (r : Rounds) :
    r.run order g ks' rounds = r.run order g ks rounds := by
  induction rounds generalizing r with
  | zero => rfl
  | succ rounds ih =>
      unfold run
      rw [step_congr habsent hsame]
      simp only [ih]

end Rounds

/-- A built graph is resolved the same without the constraints on a module that no edge leads
to. -/
theorem resolve_congr {σ : Type} {lookup : Lookup σ} {rules : PlatformRules} {root : Coordinates}
    {dependencies : List Dependency} {levels levels' : Nat} {s s' : σ} (order : VersionOrder)
    (habsent : g.leads absent = false) (hsame : Constraint.SameBut absent ks ks')
    (hbuild : ((Builder.start root dependencies ks).run lookup rules levels).run s = (some g, s'))
    (hbuild' : ((Builder.start root dependencies ks').run lookup rules levels').run s =
      (some g, s')) : resolve order g ks' = resolve order g ks := by
  obtain ⟨-, -, hends, -⟩ := resolve_isSome_iff_of_build order hbuild
  obtain ⟨-, -, hends', -⟩ := resolve_isSome_iff_of_build order hbuild'
  simp only [Rounds.run_congr habsent hsame] at hends'
  -- the bounds on the rounds differ, but either both suffice or neither does
  have hboth : (resolve order g ks').isSome = (resolve order g ks).isSome :=
    Bool.eq_iff_iff.2 (hends'.symm.trans hends)
  unfold resolve at hboth ⊢
  rw [Rounds.run_congr habsent hsame] at hboth ⊢
  rw [Option.isSome_map, Option.isSome_map] at hboth
  cases h : Rounds.run order g ks (Rounds.bound g ks) {} with
  | none =>
      rw [h] at hboth
      rw [Option.isNone_iff_eq_none.1 (Option.isSome_eq_false_iff.1 hboth)]
  | some x =>
      rw [h] at hboth
      obtain ⟨y, hy⟩ := Option.isSome_iff_exists.1 hboth
      rw [hy, Rounds.run_agree h hy]

/-! ## Passes with one constraint more -/

/-- The run that declares one constraint more. -/
def Run.insert (r : Run) (k : Constraint) : Run :=
  { r with declared := r.declared.insert k }

def Iteration.insert (it : Iteration) (k : Constraint) : Iteration :=
  { it with constraints := it.constraints.insert k }

/-- The step that goes on with one constraint more, if it goes on. -/
def Step.insert (k : Constraint) : Step → Step
  | .iterate next => .iterate (next.insert k)
  | step => step

namespace Run

variable {r : Run} {it : Iteration} {k : Constraint} {res : Resolution} {a : Alignment}

theorem not_mem_next (hk : k.source = .declared) (hnew : k ∉ r.declared) :
    k ∉ r.next (align r.order g r.rules res) := by
  intro hmem
  rcases SortedSet.mem_union.1 hmem with hmem | hmem
  · exact hnew hmem
  · obtain ⟨p, -, member, -, rfl⟩ := Alignment.mem_constraints_align.1 hmem
    cases hk

/-- A new constraint is on both sides of the comparison that says whether to go on. -/
theorem conclude_insert (hnext : k ∉ r.next a) (hit : k ∉ it.constraints) :
    (r.insert k).conclude (it.insert k) g res a = (r.conclude it g res a).insert k := by
  have hinsert : (r.insert k).next a = (r.next a).insert k := SortedSet.insert_union _ _ _
  have hiff : (r.insert k).next a = (it.insert k).constraints ↔ r.next a = it.constraints := by
    rw [hinsert]
    exact SortedSet.insert_eq_insert_iff hnext hit
  unfold conclude
  by_cases hstable : r.next a = it.constraints
  · rw [if_pos hstable, if_pos (hiff.2 hstable)]
    dsimp only [insert, Iteration.insert]
    cases misaligned r.order g res a.platforms <;> rfl
  · rw [if_neg hstable, if_neg fun h => hstable (hiff.1 h)]
    show (if max r.maxIterations 1 ≤ it.number then _ else _) = _
    by_cases hlast : max r.maxIterations 1 ≤ it.number
    · -- what the report of the last pass lists does not change
      rw [if_pos hlast, if_pos hlast, hinsert]
      show Step.failed [.noConvergence it.number
        (((r.next a).insert k).symmDiff (it.constraints.insert k)).toList] = _
      rw [SortedSet.symmDiff_insert hnext hit]
      rfl
    · rw [if_neg hlast, if_neg hlast, hinsert]
      rfl

theorem ofGraph_insert (hk : k.source = .declared) (hnew : k ∉ r.declared)
    (hit : k ∉ it.constraints)
    (hres : resolve r.order g (it.constraints.insert k) = resolve r.order g it.constraints) :
    (r.insert k).ofGraph (it.insert k) g = (r.ofGraph it g).insert k := by
  have hsame : resolve (r.insert k).order g (it.insert k).constraints =
      resolve r.order g it.constraints := hres
  unfold ofGraph
  rw [hsame]
  cases resolve r.order g it.constraints with
  | none => rfl
  | some res =>
      have haligned : (align (r.insert k).order g (r.insert k).rules res).errors =
          (align r.order g r.rules res).errors := rfl
      dsimp only
      unfold ofResolution
      dsimp only
      rw [haligned]
      cases res.errors with
      | cons e es => rfl
      | nil =>
          cases (align r.order g r.rules res).errors with
          | cons e es => rfl
          | nil => exact conclude_insert (not_mem_next hk hnew) hit

variable {σ : Type} {lookup : Lookup σ} {catalog : Catalog} {I : σ → Prop} {s : σ}
  (hreach : r.reach = catalog.reach r.rules)
  (h : lookup.AnswersFor (catalog.provider order) I)

include hreach h

/-- A pass that no edge leads to a module in is the same with a constraint on the module. -/
theorem pass_insert (hs : I s) (hg : (r.pass lookup it s).graph? = some g)
    (habsent : g.leads k.target = false) :
    (r.insert k).pass lookup (it.insert k) s = r.pass lookup it s ∧
      resolve r.order g (it.constraints.insert k) = resolve r.order g it.constraints := by
  have hsame := Constraint.sameBut_insert it.constraints k
  have hbuild := build_logged lookup r it s []
  have hbuild' := build_logged lookup (r.insert k) (it.insert k) s []
  obtain ⟨g', hg', -⟩ := exists_graph_of_pass lookup (r.insert k) (it.insert k) hreach h hs
  rw [hg] at hbuild
  rw [hg'] at hbuild'
  have hrun := Builder.run_alike
    (Builder.tidy_start r.rules r.root r.dependencies it.constraints)
    (Builder.anchored_start r.root r.dependencies it.constraints)
    (Builder.alike_start r.root r.dependencies hsame) hbuild habsent
  -- the longer list of constraints allows for more levels, which makes no difference
  obtain ⟨rfl, hleft⟩ := Builder.run_agree lookup.logged r.rules hrun hbuild'
  obtain ⟨hleft, hasked⟩ := Prod.mk.inj hleft
  refine ⟨Pass.ext rfl hasked.symm hleft.symm (hg'.trans hg.symm), ?_⟩
  exact resolve_congr r.order habsent hsame hbuild hrun

/-- Passes that no edge leads to a module in go on the same with a constraint on the module. -/
theorem go_insert (hk : k.source = .declared) (hnew : k ∉ r.declared) (n : Nat)
    (hit : k ∉ it.constraints) (hs : I s)
    (habsent : ∀ p ∈ r.passes lookup n it s, ∀ g, p.graph? = some g → g.leads k.target = false) :
    (r.insert k).passes lookup n (it.insert k) s = r.passes lookup n it s ∧
      ((r.insert k).go lookup n (it.insert k)).run s = (r.go lookup n it).run s := by
  induction n generalizing it s with
  | zero => exact ⟨rfl, rfl⟩
  | succ n ih =>
      obtain ⟨g, hg, hleft⟩ := exists_graph_of_pass lookup r it hreach h hs
      have hfirst := habsent _ List.mem_cons_self g hg
      obtain ⟨hpass, hres⟩ := pass_insert hreach h hs hg hfirst
      have hafter : (r.insert k).after (it.insert k) (r.pass lookup it s) =
          (r.after it (r.pass lookup it s)).insert k := by
        unfold after
        rw [hg]
        exact ofGraph_insert hk hnew hit hres
      rw [passes_succ, passes_succ, go_succ, go_succ, step_eq_after, step_eq_after, hpass, hafter]
      dsimp only
      cases hnext : r.after it (r.pass lookup it s) with
      | converged G => exact ⟨rfl, rfl⟩
      | failed errors => exact ⟨rfl, rfl⟩
      | unsettled => exact ⟨rfl, rfl⟩
      | iterate next =>
          have hmem : k ∉ next.constraints := by
            unfold after at hnext
            rw [hg] at hnext
            obtain ⟨-, res, rfl⟩ := eq_of_iterate hnext
            exact not_mem_next hk hnew
          obtain ⟨hpasses, hgo⟩ := ih hmem hleft fun p hp => by
            refine habsent p ?_
            rw [passes_succ, hnext]
            exact List.mem_cons_of_mem _ hp
          exact ⟨congrArg _ hpasses, hgo⟩

end Run

/-! ## Requests -/

/-- A request comes to the same with one constraint more, anywhere among its own, on a module that
no edge of any of its passes leads to; and its passes ask for the same and build the same. -/
theorem Request.resolveOver_with_absent {request : Request} {settings : Settings}
    {catalog : Catalog} {constraints : List DeclaredConstraint} {c : DeclaredConstraint}
    (hadded : constraints.Perm (c :: request.constraints))
    (habsent : ∀ p ∈ request.passes settings catalog, ∀ g, p.graph? = some g →
      g.leads c.target = false) :
    ({ request with constraints } : Request).resolveOver settings catalog =
        request.resolveOver settings catalog ∧
      ({ request with constraints } : Request).passes settings catalog =
        request.passes settings catalog := by
  have hdeclared : ({ request with constraints } : Request).declared =
      request.declared.insert (c.asConstraint .declared) := by
    unfold declared
    rw [SortedSet.ofList_eq_of_perm (hadded.map _)]
    refine SortedSet.ext fun k => ?_
    rw [SortedSet.mem_insert, SortedSet.mem_ofList, SortedSet.mem_ofList]
    exact List.mem_cons
  have hrun : Run.ofRequest { request with constraints } settings catalog =
      (Run.ofRequest request settings catalog).insert (c.asConstraint .declared) := by
    unfold Run.ofRequest Run.insert
    rw [hdeclared]
  by_cases hknown : c.asConstraint .declared ∈ request.declared
  · have hsame : Run.ofRequest { request with constraints } settings catalog =
        Run.ofRequest request settings catalog := by
      rw [hrun]
      unfold Run.insert Run.ofRequest
      rw [SortedSet.insert_of_mem hknown]
    unfold resolveOver passes
    rw [hsame]
    exact ⟨rfl, rfl⟩
  · obtain ⟨hpasses, hgo⟩ := Run.go_insert (r := Run.ofRequest request settings catalog)
      (k := c.asConstraint .declared) rfl
      (Cache.answersFor_lookup (catalog.provider (Run.ofRequest request settings catalog).order))
      rfl hknown (max (Run.ofRequest request settings catalog).maxIterations 1)
      (s := ({} : Cache)) hknown (fun _ _ ha => (by cases ha)) habsent
    unfold resolveOver passes
    rw [hrun]
    exact ⟨congrArg Prod.fst hgo, hpasses⟩

/-! ### A module that nothing depends on -/

/-- The request of `Sample.pair` over a catalog with a module more, which needs another version of
`core` and which nothing depends on. -/
def Sample.spare : Catalog :=
  ⟨lagging.modules ++ [describe "disk" "9" [dependency "core" "2"]]⟩

theorem Request.resolveOver_with_absent_over_spare :
    (Sample.pair.passes {} Sample.spare).length = 2 ∧
    (∀ p ∈ Sample.pair.passes {} Sample.spare, ∀ g, p.graph? = some g →
      g.leads (Sample.id "disk") = false) ∧
    ({ Sample.pair with constraints := [⟨Sample.id "disk", .exact "9"⟩] } : Request).resolveOver {}
        Sample.spare = Sample.pair.resolveOver {} Sample.spare ∧
      ({ Sample.pair with constraints := [⟨Sample.id "disk", .exact "9"⟩] } : Request).passes {}
        Sample.spare = Sample.pair.passes {} Sample.spare := by
  have hpasses : (Sample.pair.passes {} Sample.spare).length = 2 ∧
      ∀ p ∈ Sample.pair.passes {} Sample.spare,
        p.graph?.all (fun g => !g.leads (Sample.id "disk")) = true := by
    decide +kernel
  have habsent : ∀ p ∈ Sample.pair.passes {} Sample.spare, ∀ g, p.graph? = some g →
      g.leads (Sample.id "disk") = false := by
    intro p hp g hg
    have hall := hpasses.2 p hp
    rw [hg] at hall
    simpa using hall
  exact ⟨hpasses.1, habsent, resolveOver_with_absent (List.Perm.refl _) habsent⟩

end Lockstep
