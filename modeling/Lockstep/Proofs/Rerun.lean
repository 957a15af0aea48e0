import Lockstep.Proofs.Convergence
import Lockstep.Proofs.Members
import Lockstep.Proofs.Pinning

/-!
# Outcomes that are resolved again

An outcome makes a request of its own, which forces every module to its version
(`Request.again`). Resolving it is meant to give the same modules at the same
versions, and does not always do so. It takes versions that go by one name each;
no version on the way may force a module further up than it was selected. Then it
repeats exactly if no selected version forces a module away from its version and
the members of every platform are in step (`Request.repeats_iff`).
-/

namespace Lockstep

/-! ## The dependencies of the second run -/

namespace ResolvedGraph

/-- The exclusions that all modules are forced with. -/
def exclusions (g : ResolvedGraph) : Exclusions :=
  .ofList (g.excluded.toList.map Exclusion.ofModule)

theorem exclude_exclusions_iff {g : ResolvedGraph} {id : ModuleId} :
    g.exclusions.exclude id = true ↔ id ∈ g.excluded := by
  unfold Exclusions.exclude SortedSet.any
  rw [List.any_eq_true]
  constructor
  · rintro ⟨e, he, hcovers⟩
    obtain ⟨id', hid', rfl⟩ := List.mem_map.1 (SortedSet.mem_ofList.1 he)
    unfold Exclusion.covers Exclusion.ofModule at hcovers
    simp only [Option.all_some, Bool.and_eq_true, beq_iff_eq] at hcovers
    obtain rfl : id' = id := by
      cases id
      cases id'
      exact congrArg₂ ModuleId.mk hcovers.1 hcovers.2
    exact hid'
  · intro hid
    refine ⟨.ofModule id, SortedSet.mem_ofList.2 (List.mem_map.2 ⟨id, hid, rfl⟩), ?_⟩
    unfold Exclusion.covers Exclusion.ofModule
    simp

theorem mem_excluded {g : ResolvedGraph} {id : ModuleId} : id ∈ g.excluded ↔
    g.contains id = false ∧ ∃ r ∈ g.reports.toList, r.status = .excluded ∧ r.target = id := by
  unfold excluded
  rw [SortedSet.mem_ofList, List.mem_map]
  constructor
  · rintro ⟨r, hr, rfl⟩
    obtain ⟨hr, hcond⟩ := List.mem_filter.1 hr
    rw [Bool.and_eq_true, decide_eq_true_eq, Bool.not_eq_true'] at hcond
    exact ⟨hcond.2, r, hr, hcond.1, rfl⟩
  · rintro ⟨hcontains, r, hr, hstatus, rfl⟩
    refine ⟨r, List.mem_filter.2 ⟨hr, ?_⟩, rfl⟩
    rw [hcontains, hstatus]
    rfl

theorem mem_toDependencies {g : CandidateGraph} {res : Resolution}
    {platforms : List AlignedPlatform} {iterations : Nat} {d : Dependency} :
    d ∈ (ofResolution g res platforms iterations).toDependencies ↔
      ∃ id v, res.versionOf? id = some v ∧
        d = .pin (ofResolution g res platforms iterations).exclusions id v := by
  unfold toDependencies
  rw [modules_ofResolution, List.mem_map]
  constructor
  · rintro ⟨m, hm, rfl⟩
    obtain ⟨s, hs, hversion, -⟩ := mem_modulesOf.1 hm
    refine ⟨m.id, m.version, ?_, rfl⟩
    unfold Resolution.versionOf?
    rw [hs, hversion]
    rfl
  · rintro ⟨id, v, hv, rfl⟩
    obtain ⟨s, hs, rfl⟩ := Option.map_eq_some_iff.1 hv
    exact ⟨⟨id, s.version, s.reason⟩, mem_modulesOf.2 ⟨s, hs, rfl, rfl⟩, rfl⟩

end ResolvedGraph

/-- The run that resolves an outcome again. -/
def Run.again (r : Run) (g : ResolvedGraph) : Run :=
  { r with dependencies := g.toDependencies, declared := ∅ }

theorem Run.ofRequest_again (request : Request) (settings : Settings) (catalog : Catalog)
    (g : ResolvedGraph) :
    ofRequest (request.again g) (settings.withOverrides request.overrides) catalog =
      (ofRequest request settings catalog).again g :=
  rfl

namespace Run.Converges

variable {r : Run} {catalog : Catalog} {it : Iteration} {b : Builder} {res : Resolution}
  (h : r.Converges (catalog.provider r.order) it b res)

include h

/-! ## What the first run has drawn in -/

/-- A selected version depends on selected modules, but for those that the second run excludes. -/
theorem selected_or_excluded (hsteady : (catalog.provider r.order).Steady) {c : Coordinates}
    (hc : res.versionOf? c.id = some c.version) {request : Dependency × Bool}
    (hrequest : (r.task (catalog.provider r.order) it.constraints).Requests c request) :
    (∃ w, res.versionOf? request.1.target = some w) ∨
      request.1.target ∈ (r.graphOf it b.graph res).excluded := by
  obtain ⟨d, hd⟩ := h.exists_told hc
  obtain ⟨e, he, edge, hedge, hdependency⟩ := h.finished.exists_outgoing hsteady
    (h.finished.coverage.recorded c (.found d) hd) hrequest
  obtain ⟨o, ho, rfl⟩ := List.mem_map.1
    ((h.consistent.complete e).2 (Or.inr ⟨c.id, c.version, hc, he⟩))
  obtain ⟨edge', hedge', haccounts⟩ := h.consistent.accounted o ho
  obtain rfl := Option.some.inj (hedge.symm.trans hedge')
  have htarget : edge.target = request.1.target := congrArg Dependency.target hdependency
  rw [← htarget]
  by_cases hstatus : o.status = .excluded
  · cases hversion : res.versionOf? edge.target with
    | some w => exact Or.inl ⟨w, rfl⟩
    | none =>
        right
        have hnone : res.selections.get? edge.target = none := Option.map_eq_none_iff.1 hversion
        obtain ⟨report, hreport⟩ : ∃ report, ResolvedGraph.report? b.graph o = some report := by
          unfold ResolvedGraph.report?
          rw [hedge]
          exact ⟨_, rfl⟩
        obtain ⟨hreported, -, hrtarget, -⟩ := ResolvedGraph.report?_eq_some hedge hreport
        refine ResolvedGraph.mem_excluded.2 ⟨?_, report, ?_, hreported.trans hstatus, hrtarget⟩
        · refine Bool.eq_false_iff.2 fun hcontains => ?_
          obtain ⟨s, hs⟩ := ResolvedGraph.contains_ofResolution.1 hcontains
          rw [hnone] at hs
          cases hs
        · unfold graphOf
          rw [ResolvedGraph.toList_reports_ofResolution]
          exact List.mem_filterMap.2 ⟨o, ho, hreport⟩
  · obtain ⟨w, -, hw, -⟩ := haccounts.selected hstatus
    exact Or.inl ⟨w, hw⟩

/-- The second run pins the selected versions. -/
theorem pins (horder : r.order.Oriented)
    (hnames : ∀ id v, res.versionOf? id = some v → catalog.Names r.order id v)
    (constraints : SortedSet Constraint) :
    ((r.again (r.graphOf it b.graph res)).task (catalog.provider r.order) constraints).Pins r.order
      res.versionOf? (r.graphOf it b.graph res).exclusions := by
  have hexact : ∀ id v, res.versionOf? id = some v →
      ∃ d, catalog.find? r.order ⟨id, .exact v⟩ = some d ∧ d.version = v := by
    intro id v hv
    obtain ⟨d, hd, hversion⟩ := h.exists_published hv
    exact Catalog.exists_find?_exact (hnames id v hv) hd hversion horder
  have hanswered : ∀ id v, res.versionOf? id = some v →
      (catalog.provider r.order).answer? ⟨id, .exact v⟩ = some v := by
    intro id v hv
    obtain ⟨d, hfind, hversion⟩ := hexact id v hv
    rw [Provider.answer?_eq_some_iff]
    unfold Catalog.provider
    rw [hfind]
    exact congrArg Except.ok hversion
  constructor
  case root =>
    refine Option.eq_none_iff_forall_ne_some.2 fun v hv => ?_
    refine h.consistent.id_ne_root h.finished.tidy.arena hv ?_
    rw [h.finished.root_eq]
    rfl
  case dependencies => exact fun d => ResolvedGraph.mem_toDependencies
  case answered => exact hanswered
  case told =>
    intro id v hv
    obtain ⟨d, hfind, -⟩ := hexact id v hv
    refine ⟨d, ⟨id, .exact v⟩, rfl, hanswered id v hv, ?_⟩
    change CandidateGraph.findingOf (.ok (catalog.find? r.order ⟨id, .exact v⟩)) = _
    rw [hfind]
    rfl
  case named =>
    intro id v hv q w hq hw hsame
    obtain ⟨d, hd, hversion⟩ := h.exists_published hv
    exact Catalog.eq_of_answer?_same (hnames id v hv) hd hversion horder hq hw hsame
  case onward =>
    intro c hc request hrequest hex
    refine (h.selected_or_excluded (Catalog.steady_provider horder) hc hrequest).resolve_right ?_
    intro hexcluded
    rw [ResolvedGraph.exclude_exclusions_iff.2 hexcluded] at hex
    cases hex
  case kept =>
    intro id v hv
    refine Bool.eq_false_iff.2 fun hex => ?_
    obtain ⟨hcontains, -⟩ :=
      ResolvedGraph.mem_excluded.1 (ResolvedGraph.exclude_exclusions_iff.1 hex)
    obtain ⟨s, hs, -⟩ := Option.map_eq_some_iff.1 hv
    rw [show (r.graphOf it b.graph res).contains id = true from
      ResolvedGraph.contains_ofResolution.2 ⟨s, hs⟩] at hcontains
    cases hcontains

/-! ## The alignment of the second run -/

section

variable {constraints : SortedSet Constraint} {b' : Builder} {res' : Resolution}
  (horder : r.order.Oriented)
  (hnames : ∀ id v, res.versionOf? id = some v → catalog.Names r.order id v)
  (hb' : ((r.again (r.graphOf it b.graph res)).task (catalog.provider r.order) constraints).Finished
    b')
  (hkeeps : res'.Keeps res.versionOf?)

include horder hnames hb' hkeeps

theorem bareMembers_eq : Alignment.bareMembers b'.graph r.rules res' =
    Alignment.bareMembers b.graph r.rules res := by
  refine Alignment.bareMembers_eq hkeeps.versions fun id v hv => ?_
  obtain ⟨d, hd⟩ := h.exists_told hv
  have hd' := hb'.finding?_eq (Catalog.steady_provider horder)
    ((h.pins horder hnames constraints).reached hb' hv) (h.finished.tells hd)
  rw [CandidateGraph.descriptor?_eq, CandidateGraph.descriptor?_eq, hd, hd']

/-- What is aligned in the second run has been aligned in the first one. -/
theorem exists_platform {p' : AlignedPlatform}
    (hp' : p' ∈ (align r.order b'.graph r.rules res').platforms) :
    ∃ p ∈ (align r.order b.graph r.rules res).platforms, p.members = p'.members := by
  obtain ⟨platform, m', hm', hp'⟩ := Alignment.mem_platforms_align.1 hp'
  obtain ⟨m, hm, hbare⟩ :=
    Alignment.exists_members (h.bareMembers_eq horder hnames hb' hkeeps).symm hm'
  have hne : m.versions ≠ [] := by
    rw [← m.values_bare, hbare, m'.values_bare]
    intro hnil
    rw [Alignment.aligned?_of_forced fun id s hs =>
      hkeeps.reasons id s (Alignment.selection_of_member hm' hs), hnil] at hp'
    cases hp'
  obtain ⟨p, hp⟩ := Alignment.exists_aligned hne
    (Alignment.errors_align_eq_nil_iff.1 h.aligned platform m hm)
  refine ⟨p, Alignment.mem_platforms_align.2 ⟨platform, m, hm, hp⟩, ?_⟩
  rw [(Alignment.eq_of_aligned? hp).2, (Alignment.eq_of_aligned? hp').2, ← m.keys_bare, hbare,
    m'.keys_bare]

/-- The second run aligns without errors if the members have been in step. -/
theorem errors_align_eq_nil_iff : (align r.order b'.graph r.rules res').errors = [] ↔
    ∀ p ∈ (align r.order b.graph r.rules res).platforms,
      (r.order.distinct (p.members.filterMap res.versionOf?)).length ≤ 1 := by
  have hbare := h.bareMembers_eq horder hnames hb' hkeeps
  have hforced : ∀ {platform m'}, (Alignment.membersOf b'.graph r.rules res').get? platform =
      some m' → ∀ id s, m'.selections.get? id = some s → s.reason = .forced :=
    fun hm' id s hs => hkeeps.reasons id s (Alignment.selection_of_member hm' hs)
  constructor
  · intro herrors p hp
    obtain ⟨platform, m, hm, hp⟩ := Alignment.mem_platforms_align.1 hp
    obtain ⟨m', hm', heq⟩ := Alignment.exists_members hbare hm
    have hnone := Alignment.errors_align_eq_nil_iff.1 herrors platform m' hm'
    rw [Alignment.conflict?_eq_none_iff (hforced hm'), ← m'.values_bare, heq, m.values_bare,
      Alignment.versions_eq hm, ← (Alignment.eq_of_aligned? hp).2] at hnone
    exact hnone
  · intro hinstep
    refine Alignment.errors_align_eq_nil_iff.2 fun platform m' hm' => ?_
    obtain ⟨m, hm, heq⟩ := Alignment.exists_members hbare.symm hm'
    rw [Alignment.conflict?_eq_none_iff (hforced hm'), ← m'.values_bare, ← heq, m.values_bare]
    by_cases hne : m.versions = []
    · rw [hne]
      exact Nat.zero_le 1
    · obtain ⟨p, hp⟩ := Alignment.exists_aligned hne
        (Alignment.errors_align_eq_nil_iff.1 h.aligned platform m hm)
      rw [Alignment.versions_eq hm, ← (Alignment.eq_of_aligned? hp).2]
      exact hinstep p (Alignment.mem_platforms_align.2 ⟨platform, m, hm, hp⟩)

/-- There are constraints of an alignment only if the first run took more than one pass. -/
theorem exists_more (hdeclared : ∀ k ∈ r.declared, k.source = .declared)
    (hfirst : it = r.initial ∨ 1 < max r.maxIterations 1)
    (hne : (align r.order b'.graph r.rules res').constraints ≠ ∅) : 1 < max r.maxIterations 1 := by
  refine hfirst.resolve_left fun hinitial => hne (SortedSet.ext fun k => ?_)
  refine iff_of_false (fun hk => ?_) (SortedSet.not_mem_empty k)
  obtain ⟨p', hp', member, hmember, -⟩ := Alignment.mem_constraints_align.1 hk
  obtain ⟨p, hp, hmembers⟩ := h.exists_platform horder hnames hb' hkeeps hp'
  have hstable := h.stable
  rw [hinitial] at hstable
  have hmem : p.constraint member ∈ r.declared := by
    change p.constraint member ∈ r.initial.constraints
    rw [← hstable]
    exact SortedSet.mem_union.2 (Or.inr
      (Alignment.mem_constraints_align.2 ⟨p, hp, member, hmembers ▸ hmember, rfl⟩))
  cases hdeclared _ hmem

end

/-! ## The second run -/

section

variable (horder : r.order.Oriented)
  (hnames : ∀ id v, res.versionOf? id = some v → catalog.Names r.order id v)

include horder hnames

/-- A second run that comes to the same versions has met nothing opposed to them. -/
theorem unopposed_of_again {last : Iteration} {b' : Builder} {res' : Resolution}
    (h' : (r.again (r.graphOf it b.graph res)).Converges (catalog.provider r.order) last b' res')
    (hversions : ∀ id, res'.versionOf? id = res.versionOf? id) :
    (r.task (catalog.provider r.order) r.declared).Unopposed res.versionOf? ∧
      ∀ p ∈ (align r.order b.graph r.rules res).platforms,
        (r.order.distinct (p.members.filterMap res.versionOf?)).length ≤ 1 := by
  obtain ⟨hkeeps, hunopposed⟩ := (h.pins horder hnames last.constraints).keeps_of_resolve
    h'.finished (Catalog.steady_provider horder) horder h'.resolved h'.errors hversions
  exact ⟨hunopposed, (h.errors_align_eq_nil_iff horder hnames h'.finished hkeeps).1 h'.aligned⟩

/-- A second run in which nothing is opposed to the selected versions comes to the same ones. -/
theorem exists_again (hreach : r.reach = catalog.reach r.rules)
    (hdeclared : ∀ k ∈ r.declared, k.source = .declared)
    (hfirst : it = r.initial ∨ 1 < max r.maxIterations 1)
    (hunopposed : (r.task (catalog.provider r.order) r.declared).Unopposed res.versionOf?)
    (hunraised : (r.task (catalog.provider r.order) r.declared).Unraised r.order res.versionOf?
      (r.graphOf it b.graph res).exclusions)
    (hinstep : ∀ p ∈ (align r.order b.graph r.rules res).platforms,
      (r.order.distinct (p.members.filterMap res.versionOf?)).length ≤ 1) :
    ∃ last b' res', (∀ id, res'.versionOf? id = res.versionOf? id) ∧
      (((r.again (r.graphOf it b.graph res)).run (catalog.provider r.order).lookup).run ()).1 =
        .converged ((r.again (r.graphOf it b.graph res)).graphOf last b' res') := by
  have hresolves : ∀ k b', ((r.again (r.graphOf it b.graph res)).task (catalog.provider r.order)
      k).Finished b' → ∃ res', resolve r.order b'.graph k = some res' ∧
        res'.Keeps res.versionOf? := by
    intro k b' hb'
    exact (h.pins horder hnames k).exists_resolve hb' (Catalog.steady_provider horder) horder
      hunopposed fun c id v w hdrawn => hunraised c id v w hdrawn.restart
  obtain ⟨b₁, hb₁, -⟩ := exists_pass (r := r.again (r.graphOf it b.graph res)) hreach r.order
    (r.again (r.graphOf it b.graph res)).initial
  obtain ⟨res₁, -, hkeeps₁⟩ := hresolves _ b₁ hb₁
  obtain ⟨last, b', res', hconverges, hrun⟩ := exists_converges_of_passes
    (r := r.again (r.graphOf it b.graph res)) hreach r.order
    ((r.again (r.graphOf it b.graph res)).next (align r.order b₁.graph r.rules res₁)) (by
      intro k b' hb'
      obtain ⟨res', hres', hkeeps⟩ := hresolves k b' hb'
      refine ⟨res', hres', hkeeps.errors, ?_, ?_, ?_⟩
      · exact (h.errors_align_eq_nil_iff horder hnames hb' hkeeps).2 hinstep
      · refine congrArg (SortedSet.union ∅) (Alignment.constraints_align_eq ?_)
        exact Alignment.platforms_align_eq r.order
          ((h.bareMembers_eq horder hnames hb' hkeeps).trans
            (h.bareMembers_eq horder hnames hb₁ hkeeps₁).symm) hkeeps₁.reasons hkeeps.reasons
      · exact Alignment.misaligned_of_forced horder hkeeps.reasons) (by
      by_cases hempty : (align r.order b₁.graph r.rules res₁).constraints = ∅
      · exact Or.inl (congrArg (SortedSet.union ∅) hempty)
      · exact Or.inr (h.exists_more horder hnames hb₁ hkeeps₁ hdeclared hfirst hempty))
  obtain ⟨found, hfound, hkeeps⟩ := hresolves _ b' hconverges.finished
  obtain rfl := Option.some.inj (hfound.symm.trans hconverges.resolved)
  exact ⟨last, b'.graph, found, hkeeps.versions, hrun⟩

end

end Run.Converges

/-! ## Requests -/

/-- The members of every platform are at versions that count as one. -/
def ResolvedGraph.InStep (g : ResolvedGraph) (order : VersionOrder) : Prop :=
  ∀ p ∈ g.platforms, (order.distinct (p.members.filterMap g.versionOf?)).length ≤ 1

namespace Request

/-- What the first pass of a request works on. -/
def task (request : Request) (settings : Settings) (catalog : Catalog) : Task :=
  ⟨catalog.provider (request.order settings), request.rules, request.root, request.dependencies,
    request.declared⟩

/-- Resolved again, an outcome comes to the same modules at the same versions. -/
def Repeats (request : Request) (settings : Settings) (catalog : Catalog) (g : ResolvedGraph) :
    Prop :=
  ∃ g', (request.again g).resolveOver (settings.withOverrides request.overrides) catalog =
      .converged g' ∧
    g'.modules.map ResolvedModule.coordinates = g.modules.map ResolvedModule.coordinates

instance (request : Request) (settings : Settings) (catalog : Catalog) (g : ResolvedGraph) :
    Decidable (request.Repeats settings catalog g) :=
  match h : (request.again g).resolveOver (settings.withOverrides request.overrides) catalog with
  | .converged g' =>
    decidable_of_iff (g'.modules.map ResolvedModule.coordinates =
        g.modules.map ResolvedModule.coordinates)
      ⟨fun hsame => ⟨g', h, hsame⟩, fun ⟨_, hagain, hsame⟩ =>
        Outcome.converged.inj (h.symm.trans hagain) ▸ hsame⟩
  | .failed _ => .isFalse fun ⟨_, hagain, _⟩ => (by cases h.symm.trans hagain)
  | .unsettled => .isFalse fun ⟨_, hagain, _⟩ => (by cases h.symm.trans hagain)

theorem source_of_mem_declared {request : Request} {k : Constraint} (hk : k ∈ request.declared) :
    k.source = .declared := by
  obtain ⟨d, -, rfl⟩ := List.mem_map.1 (SortedSet.mem_ofList.1 hk)
  rfl

/-- Where versions go by one name each and none on the way forces a selected module further up, an
outcome repeats exactly if no selected version forces one to another version and the members of
every platform are in step. -/
theorem repeats_iff {request : Request} {settings : Settings} {catalog : Catalog}
    {g : ResolvedGraph} (h : request.resolveOver settings catalog = .converged g)
    (hnames : ∀ id v, g.versionOf? id = some v → catalog.Names (request.order settings) id v)
    (hunraised : (request.task settings catalog).Unraised (request.order settings) g.versionOf?
      g.exclusions) :
    request.Repeats settings catalog g ↔
      (request.task settings catalog).Unopposed g.versionOf? ∧
        g.InStep (request.order settings) := by
  obtain ⟨it, b, res, hconverges, rfl, hfirst⟩ := Run.exists_converges h
  have hversions : ((Run.ofRequest request settings catalog).graphOf it b.graph res).versionOf? =
      res.versionOf? :=
    funext fun id => ResolvedGraph.versionOf?_ofResolution id
  have horder : (Run.ofRequest request settings catalog).order.Oriented := Scheme.oriented _
  unfold ResolvedGraph.InStep
  rw [hversions] at hnames hunraised ⊢
  constructor
  · rintro ⟨g', hagain, hsame⟩
    rw [resolveOver_eq, Run.ofRequest_again] at hagain
    obtain ⟨last, b', res', hconverges', rfl, -⟩ := Run.exists_converges_of_go rfl _ _ hagain
    exact hconverges.unopposed_of_again horder hnames hconverges'
      (ResolvedGraph.coordinates_modules_eq_iff.1 hsame)
  · rintro ⟨hunopposed, hinstep⟩
    obtain ⟨last, g', res', hkept, hrun⟩ := hconverges.exists_again horder hnames rfl
      (fun k hk => source_of_mem_declared hk) hfirst hunopposed hunraised hinstep
    exact ⟨_, (resolveOver_eq _ _ _).trans hrun, ResolvedGraph.coordinates_modules_eq_iff.2 hkept⟩

end Request

/-! ### Outcomes that repeat, and outcomes that do not -/

/-- A catalog without forced dependencies forces nothing. -/
theorem Request.not_forces {request : Request} {settings : Settings} {catalog : Catalog}
    (h : ∀ d ∈ catalog.modules, ∀ dep ∈ d.dependencies, dep.forced = false) (c : Coordinates)
    (id : ModuleId) (w : String) : ¬(request.task settings catalog).Forces c id w := by
  rintro ⟨r, ⟨d, htells, hr⟩, hforced, -⟩
  obtain ⟨hd, -⟩ := Catalog.mem_of_tells htells
  rcases Builder.mem_outgoingOf hr with ⟨hdep, -⟩ | ⟨p, -, rfl⟩
  · rw [h d hd r.1 hdep] at hforced
    cases hforced
  · cases hforced

namespace Sample

/-- Two members of one platform, at different versions. -/
def duo : Request where
  root
  dependencies := [dependency "auth" "2", dependency "base" "1"]
  rules := [⟨.one (id "auth"), id "suite", .virtual⟩, ⟨.one (id "base"), id "suite", .virtual⟩]

/-- Both members of `duo` can go to version 2. -/
def even : Catalog :=
  ⟨[describe "auth" "2" [], describe "base" "1" [], describe "base" "2" []]⟩

/-- `base` stays behind, which is let pass as long as nothing is forced. -/
def uneven : Catalog :=
  ⟨[describe "auth" "2" [], describe "base" "1" []]⟩

/-- Both requests of `core` are met only because the first one is excluded. -/
def split : Request where
  root
  dependencies := [{ dependency "auth" "1" with exclusions := .ofList [.ofModule (id "core")] },
    dependency "core" "1"]

def splitting : Catalog :=
  ⟨[describe "auth" "1" [(dependency "core" "2").force], describe "core" "1" [],
    describe "core" "2" []]⟩

/-- A range that leaves out a version, but not another name of it. -/
def ranged : Request where
  root
  dependencies := [⟨id "core", .range ⟨some ⟨"1-ga", false⟩, some ⟨"2", true⟩⟩, false, none, ∅⟩]

def aliased : Catalog :=
  ⟨[describe "core" "1" [], describe "core" "1.0" []]⟩

/-- Newer versions that force each other, and that nothing selected leads to until `core` is in
question. -/
def stirred : Request where
  root
  dependencies := split.dependencies ++ [dependency "base" "1", dependency "disk" "1"]

def stirring : Catalog :=
  ⟨[describe "auth" "1" [dependency "core" "2"], describe "core" "1" [],
    describe "core" "2" [(dependency "base" "2").force], describe "base" "1" [],
    describe "base" "2" [(dependency "disk" "2").force], describe "disk" "1" [],
    describe "disk" "2" [(dependency "base" "2").force]]⟩

/-- Whether the outcome of a request repeats, if there is one. -/
def repeats? (request : Request) (catalog : Catalog) : Option Bool :=
  (request.resolveOver {} catalog).graph?.map fun g => request.Repeats {} catalog g

end Sample

theorem Request.repeats_over_even : ∃ g, Sample.duo.resolveOver {} Sample.even = .converged g ∧
    g.platforms ≠ [] ∧ Sample.duo.Repeats {} Sample.even g := by
  have hfound : ((Sample.duo.resolveOver {} Sample.even).graph?.filter fun g =>
      g.platforms ≠ [] ∧
      (∀ p ∈ g.platforms,
        ((Sample.duo.order {}).distinct (p.members.filterMap g.versionOf?)).length ≤ 1) ∧
      ∀ d ∈ Sample.even.modules, ∀ v ∈ (g.versionOf? d.id).toList,
        (Sample.duo.order {}).same d.version v = true → d.version = v).isSome = true := by
    decide +kernel
  obtain ⟨g, hg⟩ := Option.isSome_iff_exists.1 hfound
  obtain ⟨hgraph, hcond⟩ := Option.filter_eq_some_iff.1 hg
  obtain ⟨hplatforms, hinstep, hnames⟩ := of_decide_eq_true hcond
  have hconverged := Outcome.eq_of_graph? hgraph
  have hnot : ∀ c id w, ¬(Sample.duo.task {} Sample.even).Forces c id w :=
    not_forces (by decide)
  refine ⟨g, hconverged, hplatforms, (repeats_iff hconverged ?_ ?_).2 ⟨?_, hinstep⟩⟩
  · intro id v hv d hd hsame
    obtain ⟨hmem, hid⟩ := List.mem_filter.1 hd
    obtain rfl := beq_iff_eq.1 hid
    exact hnames d hmem v (Option.mem_toList.2 hv) hsame
  · exact fun c id v w _ _ _ hforces => absurd hforces (hnot c id w)
  · exact fun c id v w _ _ hforces => absurd hforces (hnot c id w)

/-- A platform whose members are not in step is enough for an outcome not to repeat. -/
theorem Request.not_repeats_over_uneven : ∃ g,
    Sample.duo.resolveOver {} Sample.uneven = .converged g ∧
      ¬Sample.duo.Repeats {} Sample.uneven g := by
  have hfails : Sample.repeats? Sample.duo Sample.uneven = some false := by decide +kernel
  obtain ⟨g, hgraph, hfalse⟩ := Option.map_eq_some_iff.1 hfails
  exact ⟨g, Outcome.eq_of_graph? hgraph, of_decide_eq_false hfalse⟩

-- None of the other conditions can be left out either.
example : Sample.repeats? Sample.split Sample.splitting = some false := by decide +kernel

example : Sample.repeats? Sample.ranged Sample.aliased = some false := by decide +kernel

example : Sample.repeats? Sample.stirred Sample.stirring = some false := by decide +kernel

end Lockstep
