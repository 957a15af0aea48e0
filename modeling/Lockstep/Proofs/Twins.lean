import Lockstep.Proofs.Provision
import Lockstep.Proofs.Shuffle

/-!
# Twin graphs

Two candidate graphs are twins if they differ in nothing but the numbers of
their edges and the order of what they list. Under the same guide their live
graphs have the same versions and exclusions (`Twin.walk`), and the same demands
are made on them (`Twin.gather_eq`); so their rounds choose the same, one after
the other (`Twin.run`).
-/

namespace Lockstep

/-- What an edge says, whatever its number. -/
def Edge.content (e : Edge) : Coordinates × Dependency × Bool :=
  (e.source, e.dependency, e.synthetic)

/-- Edges that say the same have the same dependency. -/
theorem Edge.dependency_eq_of_content {edge edge' : Edge} (h : edge'.content = edge.content) :
    edge'.dependency = edge.dependency :=
  congrArg (·.2.1) h

theorem Edge.target_eq_of_content {edge edge' : Edge} (h : edge'.content = edge.content) :
    edge'.target = edge.target :=
  congrArg Dependency.target (Edge.dependency_eq_of_content h)

namespace CandidateGraph

/-- What the edges with the given numbers say. -/
def contents (g : CandidateGraph) (ids : List EdgeId) : List (Coordinates × Dependency × Bool) :=
  (ids.filterMap g.edge?).map Edge.content

theorem mem_contents {g : CandidateGraph} {ids : List EdgeId}
    {k : Coordinates × Dependency × Bool} : k ∈ g.contents ids ↔
      ∃ e ∈ ids, ∃ edge, g.edge? e = some edge ∧ edge.content = k := by
  unfold contents
  rw [List.mem_map]
  constructor
  · rintro ⟨edge, hedge, rfl⟩
    obtain ⟨e, he, hedge⟩ := List.mem_filterMap.1 hedge
    exact ⟨e, he, edge, hedge, rfl⟩
  · rintro ⟨e, he, edge, hedge, rfl⟩
    exact ⟨edge, List.mem_filterMap.2 ⟨e, he, hedge⟩, rfl⟩

theorem Carries.contents_eq {g : CandidateGraph} {source : Coordinates} {ids : List EdgeId}
    {requests : List (Dependency × Bool)} (h : g.Carries source ids requests) :
    g.contents ids = requests.map fun r => (source, r.1, r.2) := by
  obtain ⟨-, hedges⟩ := h
  unfold contents
  induction hedges with
  | nil => rfl
  | cons hr _ ih =>
      obtain ⟨edge, hedge, hsource, hdependency, hsynthetic⟩ := hr
      rw [List.filterMap_cons_some hedge, List.map_cons, List.map_cons, ih]
      unfold Edge.content
      rw [hsource, hdependency, hsynthetic]

theorem Carries.length_eq {g : CandidateGraph} {source : Coordinates} {ids : List EdgeId}
    {requests : List (Dependency × Bool)} (h : g.Carries source ids requests) :
    ids.length = requests.length :=
  h.edges.length_eq

/-- The same graph, but for the numbers of edges and the order of lists. -/
structure Twin (g g' : CandidateGraph) (R : Region) (declared : List Query) : Prop where
  coverage : Coverage g R declared
  coverage' : Coverage g' R declared
  coordinates : g.KeepsCoordinates
  coordinates' : g'.KeepsCoordinates
  root : g'.root = g.root
  outcomes : ∀ q, g'.outcome? q = g.outcome? q
  findings : ∀ c f, g.finding? c = some f → ∃ f', g'.finding? c = some f' ∧ f.Shuffled f'
  findings' : ∀ c f', g'.finding? c = some f' → ∃ f, g.finding? c = some f ∧ f'.Shuffled f
  rootEdges : (g.contents g.rootEdges).Perm (g'.contents g'.rootEdges)
  outgoing : ∀ c, (g.contents (g.outgoing c)).Perm (g'.contents (g'.outgoing c))
  size : g'.edges.size = g.edges.size

end CandidateGraph

/-- The same live versions with the same exclusions. -/
structure Live.Alike (live live' : Live) : Prop where
  nodes : live'.nodes = live.nodes
  exclusions : live'.exclusions = live.exclusions

namespace CandidateGraph.Twin

variable {g g' : CandidateGraph} {R : Region} {declared : List Query} {guide : Guide}
  {live live' : Live} {order : VersionOrder}

theorem symm (h : g.Twin g' R declared) : g'.Twin g R declared :=
  ⟨h.coverage', h.coverage, h.coordinates', h.coordinates, h.root.symm,
    fun q => (h.outcomes q).symm, h.findings', h.findings, h.rootEdges.symm,
    fun c => (h.outgoing c).symm, h.size.symm⟩

variable (h : g.Twin g' R declared)

include h

/-! ## Walks -/

theorem answer?_eq (q : Query) : g'.answer? q = g.answer? q := by
  unfold CandidateGraph.answer?
  rw [h.outcomes]

theorem exists_root {e : EdgeId} (he : e ∈ g.rootEdges) {edge : Edge}
    (hedge : g.edge? e = some edge) : ∃ e' ∈ g'.rootEdges, ∃ edge', g'.edge? e' = some edge' ∧
      edge'.content = edge.content :=
  mem_contents.1 (h.rootEdges.mem_iff.1 (mem_contents.2 ⟨e, he, edge, hedge, rfl⟩))

theorem exists_outgoing {c : Coordinates} {e : EdgeId} (he : e ∈ g.outgoing c) {edge : Edge}
    (hedge : g.edge? e = some edge) : ∃ e' ∈ g'.outgoing c, ∃ edge', g'.edge? e' = some edge' ∧
      edge'.content = edge.content :=
  mem_contents.1 ((h.outgoing c).mem_iff.1 (mem_contents.2 ⟨e, he, edge, hedge, rfl⟩))

/-- Edges that say the same and have been followed have the same answer. -/
theorem resolved_eq {edge edge' : Edge} (hsame : edge'.content = edge.content)
    {inherited inherited' : Exclusions} (hfollowed : g.Followed R edge inherited)
    (hfollowed' : g'.Followed R edge' inherited') : edge'.resolved = edge.resolved := by
  have hdependency := Edge.dependency_eq_of_content hsame
  rw [hfollowed.resolved, hfollowed'.resolved, h.answer?_eq]
  unfold Edge.query
  rw [hdependency]

theorem guides (hguide : g.Guides guide) : g'.Guides guide := by
  intro id v hv
  obtain ⟨n, hn⟩ := hguide id v hv
  obtain ⟨f', hf', -⟩ := h.findings _ n.finding (finding?_eq_some_iff.2 ⟨n, hn, rfl⟩)
  obtain ⟨n', hn', -⟩ := finding?_eq_some_iff.1 hf'
  exact ⟨n', hn'⟩

/-- What is live in one graph is closed in the other. -/
theorem closed (hguide : g.Guides guide) (hwalk : walk g guide = some live) :
    live.region.Closed g' guide := by
  have hclosed := closed_of_walk hwalk
  have hle := h.coverage.live_le hguide hwalk
  have harrives : ∀ {edge edge' : Edge} {inherited inherited₁ inherited₂ : Exclusions},
      edge'.content = edge.content → g.Followed R edge inherited₁ →
      g'.Followed R edge' inherited₂ →
      live.region.Arrives edge.target (edge.version? guide) inherited →
      live.region.Arrives edge'.target (edge'.version? guide) inherited := by
    intro edge edge' inherited _ _ hsame hfollowed hfollowed' hedge
    unfold Edge.version? at *
    rw [h.resolved_eq hsame hfollowed hfollowed', Edge.target_eq_of_content hsame]
    exact hedge
  constructor
  case root =>
    intro e' he' edge' hedge'
    obtain ⟨e, he, edge, hedge, hsame⟩ := h.symm.exists_root he' hedge'
    have hdependency := Edge.dependency_eq_of_content hsame
    have hedge₁ := hclosed.root e he edge hedge
    rw [hdependency] at hedge₁
    exact harrives hsame.symm (h.coverage.root e he edge hedge)
      (h.coverage'.root e' he' edge' hedge') hedge₁
  case onward =>
    intro c hc set hset e' he' edge' hedge' hex'
    obtain ⟨e, he, edge, hedge, hsame⟩ := h.symm.exists_outgoing he' hedge'
    have hdependency := Edge.dependency_eq_of_content hsame
    have hex : set.exclude edge.target = false := by
      rw [Edge.target_eq_of_content hsame]
      exact hex'
    obtain ⟨shared, hshared, hsub⟩ := hle.exclusions c.id set hset
    have hnode := hle.nodes c hc
    have hedge₁ := hclosed.onward c hc set hset e he edge hedge hex
    rw [hdependency] at hedge₁
    exact harrives hsame.symm
      (h.coverage.onward c hnode shared hshared e he edge hedge
        (Exclusions.exclude_eq_false_of_subset hsub hex))
      (h.coverage'.onward c hnode shared hshared e' he' edge' hedge'
        (Exclusions.exclude_eq_false_of_subset hsub hex')) hedge₁

/-- Walks under the same guide come to the same. -/
theorem alike (hguide : g.Guides guide) (hwalk : walk g guide = some live)
    (hwalk' : walk g' guide = some live') : live.Alike live' := by
  have hregion : live'.region = live.region :=
    Region.le_antisymm (le_of_walk hwalk' (h.closed hguide hwalk))
      (le_of_walk hwalk (h.symm.closed (h.guides hguide) hwalk'))
  constructor
  · refine SortedSet.ext fun c => ?_
    exact iff_of_eq (congrFun (congrArg Region.nodes hregion) c)
  · exact SortedMap.ext fun id => congrFun (congrArg Region.exclusions hregion) id

/-- An edge that is followed in one graph is followed in the other. -/
theorem exists_follows (hguide : g.Guides guide) (hwalk : walk g guide = some live)
    (hwalk' : walk g' guide = some live') {e : EdgeId} {edge : Edge}
    (hedge : g.edge? e = some edge) (hfollows : Live.Follows g live e edge) :
    ∃ e' edge', g'.edge? e' = some edge' ∧ Live.Follows g' live' e' edge' ∧
      edge'.content = edge.content ∧ edge'.resolved = edge.resolved := by
  have halike := h.alike hguide hwalk hwalk'
  obtain ⟨e', edge', hedge', hfollows', hsame⟩ : ∃ e' edge', g'.edge? e' = some edge' ∧
      Live.Follows g' live' e' edge' ∧ edge'.content = edge.content := by
    rcases hfollows with he | ⟨c, hc, he, hex⟩
    · obtain ⟨e', he', edge', hedge', hsame⟩ := h.exists_root he hedge
      exact ⟨e', edge', hedge', Or.inl he', hsame⟩
    · obtain ⟨e', he', edge', hedge', hsame⟩ := h.exists_outgoing he hedge
      refine ⟨e', edge', hedge', Or.inr ⟨c, ?_, he', ?_⟩, hsame⟩
      · rw [halike.nodes]
        exact hc
      · rw [halike.exclusions, Edge.target_eq_of_content hsame]
        exact hex
  obtain ⟨inherited, hfollowed⟩ := h.coverage.followed hguide hwalk hedge hfollows
  obtain ⟨inherited', hfollowed'⟩ :=
    h.coverage'.followed (h.guides hguide) hwalk' hedge' hfollows'
  exact ⟨e', edge', hedge', hfollows', hsame, h.resolved_eq hsame hfollowed hfollowed'⟩

theorem contains_incoming (hguide : g.Guides guide) (hwalk : walk g guide = some live)
    (hwalk' : walk g' guide = some live') {id : ModuleId}
    (hcontains : live.incoming.contains id = true) : live'.incoming.contains id = true := by
  obtain ⟨es, hes⟩ := SortedMap.contains_iff.1 hcontains
  obtain ⟨e, -, edge, hedge, rfl, hfollows⟩ := Live.exists_mem_incoming hwalk hes
  obtain ⟨e', edge', hedge', hfollows', hsame, -⟩ :=
    h.exists_follows hguide hwalk hwalk' hedge hfollows
  obtain ⟨es', hes', -⟩ := Live.exists_get?_incoming hwalk' hedge' hfollows'
  rw [Edge.target_eq_of_content hsame] at hes'
  exact SortedMap.contains_iff.2 ⟨es', hes'⟩

/-! ## Demands -/

theorem exists_descriptor {c : Coordinates} {d : Descriptor} (hd : g.descriptor? c = some d) :
    ∃ d', g'.descriptor? c = some d' ∧ d.Shuffled d' := by
  obtain ⟨f', hf', hshuffled⟩ := h.findings c _ (descriptor?_eq_some_iff.1 hd)
  cases hshuffled with
  | found hdd => exact ⟨_, descriptor?_eq_some_iff.2 hf', hdd⟩

theorem isNone_descriptor? (c : Coordinates) :
    (g'.descriptor? c).isNone = (g.descriptor? c).isNone := by
  cases hd : g.descriptor? c with
  | some d =>
      obtain ⟨d', hd', -⟩ := h.exists_descriptor hd
      rw [hd']
      rfl
  | none =>
      cases hd' : g'.descriptor? c with
      | none => rfl
      | some d' =>
          obtain ⟨d, hd'', -⟩ := h.symm.exists_descriptor hd'
          rw [hd] at hd''
          cases hd''

theorem ofEdge_eq {edge edge' : Edge} (hsame : edge'.content = edge.content)
    (hresolved : edge'.resolved = edge.resolved) :
    Demands.ofEdge g' edge' = Demands.ofEdge g edge := by
  have hsource : edge'.source = edge.source := congrArg Prod.fst hsame
  have hdependency := Edge.dependency_eq_of_content hsame
  unfold Demands.ofEdge Demands.edgeShortfall Edge.query
  rw [hsource, hdependency, hresolved, h.outcomes]

theorem ofConstraint_eq (k : Constraint) :
    Demands.ofConstraint g' k = Demands.ofConstraint g k := by
  unfold Demands.ofConstraint Demands.constraintOutcome
  rw [h.outcomes]

theorem waived_eq (k : Constraint) : Demands.waived g' k = Demands.waived g k := by
  unfold Demands.waived
  rw [h.ofConstraint_eq]
  cases (Demands.ofConstraint g k).version? with
  | none => rfl
  | some v => exact congrArg _ (h.isNone_descriptor? _)

theorem enforces_of_twin (hguide : g.Guides guide) (hwalk : walk g guide = some live)
    (hwalk' : walk g' guide = some live') {c : Coordinates} {d d' : Descriptor}
    (hd : d.Shuffled d') (henforces : Demands.enforces g live guide c d = true) :
    Demands.enforces g' live' guide c d' = true := by
  unfold Demands.enforces at henforces ⊢
  rw [Bool.or_eq_true] at henforces ⊢
  rcases henforces with hforces | hedges
  · left
    unfold Descriptor.forcesConstraints at hforces ⊢
    rw [hd.category]
    exact hforces
  · right
    obtain ⟨e, he, hcond⟩ := List.any_eq_true.1 hedges
    cases hes : live.incoming.get? c.id with
    | none =>
        rw [hes] at he
        cases he
    | some es =>
        rw [hes] at he
        obtain ⟨edge, hedge, htarget, hfollows⟩ := (Live.mem_of_get?_incoming hwalk hes).1 he
        obtain ⟨e', edge', hedge', hfollows', hsame, hresolved⟩ :=
          h.exists_follows hguide hwalk hwalk' hedge hfollows
        have htarget' := (Edge.target_eq_of_content hsame).trans htarget
        obtain ⟨es', hes', he'⟩ := Live.exists_get?_incoming hwalk' hedge' hfollows'
        rw [htarget'] at hes'
        refine List.any_eq_true.2 ⟨e', by rw [hes']; exact he', ?_⟩
        rw [hedge] at hcond
        rw [hedge']
        unfold Edge.version? at hcond ⊢
        dsimp only at hcond ⊢
        rw [Edge.dependency_eq_of_content hsame, Edge.target_eq_of_content hsame, hresolved]
        exact hcond

theorem enforces_eq (hguide : g.Guides guide) (hwalk : walk g guide = some live)
    (hwalk' : walk g' guide = some live') {c : Coordinates} {d d' : Descriptor}
    (hd : d.Shuffled d') :
    Demands.enforces g' live' guide c d' = Demands.enforces g live guide c d :=
  Bool.eq_iff_iff.2 ⟨h.symm.enforces_of_twin (h.guides hguide) hwalk' hwalk hd.symm,
    h.enforces_of_twin hguide hwalk hwalk' hd⟩

theorem applied_of_twin (hguide : g.Guides guide) (hwalk : walk g guide = some live)
    (hwalk' : walk g' guide = some live') {constraints : SortedSet Constraint} {k : Constraint}
    (hk : k ∈ Demands.applied g live guide constraints) :
    k ∈ Demands.applied g' live' guide constraints := by
  refine Demands.mem_applied.2 ((Demands.mem_applied.1 hk).imp_right ?_)
  rintro ⟨c, hc, d, hd, k', hk', rfl⟩
  obtain ⟨d', hd', hshuffled⟩ := h.exists_descriptor hd
  refine ⟨c, ?_, d', hd', k', hshuffled.constraints.mem_iff.1 hk', ?_⟩
  · rw [(h.alike hguide hwalk hwalk').nodes]
    exact hc
  · rw [h.enforces_eq hguide hwalk hwalk' hshuffled]

theorem mem_gather_of_twin (hguide : g.Guides guide) (hwalk : walk g guide = some live)
    (hwalk' : walk g' guide = some live') {constraints : SortedSet Constraint} {id : ModuleId}
    {set set' : SortedSet Candidate}
    (hset : (Demands.gather g live guide constraints).get? id = some set)
    (hset' : (Demands.gather g' live' guide constraints).get? id = some set') {c : Candidate}
    (hc : c ∈ set) : c ∈ set' := by
  refine (Demands.mem_of_get?_gather hset').2 ?_
  rcases (Demands.mem_of_get?_gather hset).1 hc with
    ⟨es, hes, e, he, edge, hedge, rfl⟩ | ⟨k, hk, hwaived, htarget, rfl⟩
  · left
    obtain ⟨edge₁, hedge₁, rfl, hfollows⟩ := (Live.mem_of_get?_incoming hwalk hes).1 he
    obtain rfl := Option.some.inj (hedge.symm.trans hedge₁)
    obtain ⟨e', edge', hedge', hfollows', hsame, hresolved⟩ :=
      h.exists_follows hguide hwalk hwalk' hedge hfollows
    obtain ⟨es', hes', he'⟩ := Live.exists_get?_incoming hwalk' hedge' hfollows'
    rw [Edge.target_eq_of_content hsame] at hes'
    exact ⟨es', hes', e', he', edge', hedge', h.ofEdge_eq hsame hresolved⟩
  · right
    exact ⟨k, h.applied_of_twin hguide hwalk hwalk' hk, (h.waived_eq k).trans hwaived, htarget,
      h.ofConstraint_eq k⟩

/-- The same demands are made on both live graphs. -/
theorem gather_eq (hguide : g.Guides guide) (hwalk : walk g guide = some live)
    (hwalk' : walk g' guide = some live') (constraints : SortedSet Constraint) :
    Demands.gather g' live' guide constraints = Demands.gather g live guide constraints := by
  have hguide' := h.guides hguide
  have hcontains : ∀ id, live'.incoming.contains id = live.incoming.contains id := fun id =>
    Bool.eq_iff_iff.2 ⟨h.symm.contains_incoming hguide' hwalk' hwalk,
      h.contains_incoming hguide hwalk hwalk'⟩
  refine SortedMap.ext fun id => ?_
  have hboth : (Demands.gather g' live' guide constraints).contains id =
      (Demands.gather g live guide constraints).contains id := by
    rw [Demands.contains_gather, Demands.contains_gather, hcontains]
  unfold SortedMap.contains at hboth
  cases hset : (Demands.gather g live guide constraints).get? id with
  | none =>
      rw [hset] at hboth
      exact Option.isNone_iff_eq_none.1 (by simpa using hboth)
  | some set =>
      rw [hset] at hboth
      obtain ⟨set', hset'⟩ := Option.isSome_iff_exists.1 hboth
      rw [hset']
      refine congrArg some (SortedSet.ext fun c => ?_)
      exact ⟨h.symm.mem_gather_of_twin hguide' hwalk' hwalk hset' hset,
        h.mem_gather_of_twin hguide hwalk hwalk' hset hset'⟩

/-! ## Choices -/

omit h in
/-- The versions of a module with metadata, in the order of their keys. -/
theorem recorded_eq (hg : g.KeepsCoordinates) (id : ModuleId) :
    ((g.versionsOf id).filterMap fun n =>
      n.finding.descriptor?.map fun _ => n.coordinates.version) =
      (g.nodes.keys.filter (·.id == id)).filterMap fun c =>
        (g.descriptor? c).map fun _ => c.version := by
  have hentries : ∀ x ∈ g.nodes.entries, x.2.coordinates = x.1 ∧
      g.descriptor? x.1 = x.2.finding.descriptor? := by
    intro x hx
    have hnode : g.node? x.1 = some x.2 := SortedMap.mem_entries_iff.1 hx
    refine ⟨hg x.1 x.2 hnode, ?_⟩
    unfold descriptor?
    rw [hnode]
    rfl
  unfold versionsOf SortedMap.values SortedMap.keys
  generalize g.nodes.entries = entries at hentries
  induction entries with
  | nil => rfl
  | cons x rest ih =>
      obtain ⟨hcoordinates, hdescriptor⟩ := hentries x List.mem_cons_self
      have hrest := ih fun y hy => hentries y (List.mem_cons_of_mem _ hy)
      rw [List.map_cons, List.map_cons, List.filter_cons, List.filter_cons, hcoordinates]
      split
      · rw [List.filterMap_cons, List.filterMap_cons, hrest, hdescriptor, hcoordinates]
      · exact hrest

theorem keys_eq : g'.nodes.keys = g.nodes.keys := by
  have hiff : ∀ c, c ∈ g'.nodes.keys ↔ c ∈ g.nodes.keys := by
    have hkey : ∀ {g : CandidateGraph} {c}, c ∈ g.nodes.keys ↔ ∃ f, g.finding? c = some f := by
      intro g c
      rw [SortedMap.mem_keys_iff]
      constructor
      · rintro ⟨n, hn⟩
        exact ⟨n.finding, finding?_eq_some_iff.2 ⟨n, hn, rfl⟩⟩
      · rintro ⟨f, hf⟩
        obtain ⟨n, hn, -⟩ := finding?_eq_some_iff.1 hf
        exact ⟨n, hn⟩
    intro c
    rw [hkey, hkey]
    constructor
    · rintro ⟨f', hf'⟩
      obtain ⟨f, hf, -⟩ := h.findings' c f' hf'
      exact ⟨f, hf⟩
    · rintro ⟨f, hf⟩
      obtain ⟨f', hf', -⟩ := h.findings c f hf
      exact ⟨f', hf'⟩
  exact g'.nodes.increasing.eq_of_mem_iff g.nodes.increasing hiff

theorem highestInRanges_eq (order : VersionOrder) :
    Choice.highestInRanges order g' = Choice.highestInRanges order g := by
  funext id candidates
  unfold Choice.highestInRanges
  rw [recorded_eq h.coordinates id, recorded_eq h.coordinates' id, h.keys_eq]
  have hsame : ∀ c : Coordinates, ((g'.descriptor? c).map fun _ => c.version) =
      (g.descriptor? c).map fun _ => c.version := by
    intro c
    have hnone := h.isNone_descriptor? c
    cases hd : g.descriptor? c <;> cases hd' : g'.descriptor? c
    · rfl
    · rw [hd, hd'] at hnone
      cases hnone
    · rw [hd, hd'] at hnone
      cases hnone
    · rfl
  rw [funext hsame]

theorem select_eq (order : VersionOrder) : Choice.select order g' = Choice.select order g := by
  funext id candidates
  unfold Choice.select Choice.highest
  rw [h.highestInRanges_eq]

theorem missing_eq (id : ModuleId) (demands : List Demand) (v : String) :
    Round.missing g' id demands v = Round.missing g id demands v := by
  have hfinding : ∀ g : CandidateGraph, Round.missing g id demands v =
      match g.finding? (id.atVersion v) with
      | none => some (.unresolved (.version (id.atVersion v)) demands .unfetched)
      | some f => f.miss?.map fun m =>
          .unresolved (.version (id.atVersion v)) demands (.missing m) := by
    intro g
    unfold Round.missing finding?
    dsimp only
    cases g.node? (id.atVersion v) <;> rfl
  rw [hfinding, hfinding]
  cases hf : g.finding? (id.atVersion v) with
  | none =>
      cases hf' : g'.finding? (id.atVersion v) with
      | none => rfl
      | some f' =>
          obtain ⟨f, hf'', -⟩ := h.findings' _ f' hf'
          rw [hf] at hf''
          cases hf''
  | some f =>
      obtain ⟨f', hf', hshuffled⟩ := h.findings _ f hf
      rw [hf']
      cases hshuffled <;> rfl

/-- The same is chosen from the same demands. -/
theorem ofDemands_eq (order : VersionOrder) (demands : Demands) :
    Round.ofDemands order g' demands = Round.ofDemands order g demands := by
  have hchoose : Round.choose order g' = Round.choose order g := by
    funext id candidates
    unfold Round.choose
    rw [h.select_eq]
    dsimp only
    split
    · rfl
    · rw [h.missing_eq]
  unfold Round.ofDemands
  rw [hchoose]

end CandidateGraph.Twin

/-! ## Rounds -/

namespace CandidateGraph.Twin

variable {g g' : CandidateGraph} {R : Region} {constraints : SortedSet Constraint}
  {live live' : Live} {order : VersionOrder} {r : Rounds} {round : Round}
  (h : g.Twin g' R (constraints.toList.map fun k => ⟨k.target, k.requirement⟩))

include h

/-- The same round takes place in both graphs, from the same state. -/
theorem step_eq (order : VersionOrder) (hr : r.Provided g) (hwalk : walk g r.guide = some live)
    (hwalk' : walk g' r.guide = some live') : r.step order g' constraints =
      (r.step order g constraints).map fun
        | .again next => .again next
        | .settled _ round => .settled live' round := by
  have hgathered : r.gathered g' constraints live' = r.gathered g constraints live := by
    unfold Rounds.gathered
    rw [h.gather_eq hr.guides hwalk hwalk' constraints]
  have hgather := h.gather_eq hr.guides hwalk hwalk' constraints
  rw [Rounds.step_eq order g constraints r hwalk, Rounds.step_eq order g' constraints r hwalk',
    hgathered, hgather, h.ofDemands_eq]
  split <;> rfl

/-- Rounds from the same state choose the same, and as soon. -/
theorem run (hr : r.Provided g) {rounds : Nat}
    (hrun : r.run order g constraints rounds = some (live, round)) :
    ∃ live', r.run order g' constraints rounds = some (live', round) ∧ live.Alike live' := by
  induction rounds generalizing r with
  | zero => cases hrun
  | succ rounds ih =>
      obtain ⟨live₁, hwalk⟩ := Option.isSome_iff_exists.1 (walk_isSome g r.guide)
      obtain ⟨live₁', hwalk'⟩ := Option.isSome_iff_exists.1 (walk_isSome g' r.guide)
      have hstep' := h.step_eq order hr hwalk hwalk'
      unfold Rounds.run at hrun ⊢
      cases hstep : r.step order g constraints with
      | none =>
          rw [hstep] at hrun
          cases hrun
      | some progress =>
          rw [hstep] at hrun hstep'
          rw [hstep']
          cases progress with
          | again next =>
              exact ih (Rounds.provided_step h.coordinates h.coverage hr hstep) hrun
          | settled live₂ round₂ =>
              obtain ⟨rfl, rfl⟩ := Prod.mk.inj (Option.some.inj hrun)
              refine ⟨live₁', rfl, ?_⟩
              rw [Rounds.step_eq order g constraints r hwalk] at hstep
              split at hstep
              · obtain ⟨rfl, -⟩ := Progress.settled.inj (Option.some.inj hstep)
                exact h.alike hr.guides hwalk hwalk'
              · cases hstep

theorem length_versionsOf_eq (id : ModuleId) :
    (g'.versionsOf id).length = (g.versionsOf id).length := by
  have hkeys : ∀ g : CandidateGraph, g.KeepsCoordinates →
      (g.versionsOf id).length = (g.nodes.keys.filter (·.id == id)).length := by
    intro g hg
    have hentries : ∀ x ∈ g.nodes.entries, x.2.coordinates = x.1 :=
      fun x hx => hg x.1 x.2 (SortedMap.mem_entries_iff.1 hx)
    unfold versionsOf SortedMap.values SortedMap.keys
    rw [List.filter_map, List.filter_map, List.length_map, List.length_map]
    refine congrArg List.length (List.filter_congr fun x hx => ?_)
    dsimp only [Function.comp_apply]
    rw [hentries x hx]
  rw [hkeys g h.coordinates, hkeys g' h.coordinates', h.keys_eq]

/-- As many constraints are published. -/
theorem published_eq :
    ((g'.nodes.values.filterMap (·.finding.descriptor?)).flatMap (·.constraints)).length =
      ((g.nodes.values.filterMap (·.finding.descriptor?)).flatMap (·.constraints)).length := by
  have hkeys : ∀ g : CandidateGraph,
      ((g.nodes.values.filterMap (·.finding.descriptor?)).flatMap (·.constraints)).length =
        ((g.nodes.keys.filterMap g.descriptor?).flatMap (·.constraints)).length := by
    intro g
    have hentries : ∀ x ∈ g.nodes.entries, g.descriptor? x.1 = x.2.finding.descriptor? := by
      intro x hx
      unfold descriptor? node?
      rw [SortedMap.mem_entries_iff.1 hx]
      rfl
    unfold SortedMap.values SortedMap.keys
    rw [List.filterMap_map, List.filterMap_map]
    refine congrArg (fun l : List Descriptor => (l.flatMap (·.constraints)).length) ?_
    exact List.filterMap_congr fun x hx => (hentries x hx).symm
  rw [hkeys, hkeys, h.keys_eq]
  induction g.nodes.keys with
  | nil => rfl
  | cons c rest ih =>
      rw [List.filterMap_cons, List.filterMap_cons]
      have hnone := h.isNone_descriptor? c
      cases hd : g.descriptor? c with
      | none =>
          rw [hd] at hnone
          rw [Option.isNone_iff_eq_none.1 hnone]
          exact ih
      | some d =>
          obtain ⟨d', hd', hshuffled⟩ := h.exists_descriptor hd
          rw [hd']
          rw [List.flatMap_cons, List.flatMap_cons, List.length_append, List.length_append, ih,
            hshuffled.constraints.length_eq]

theorem bound_eq : Rounds.bound g' constraints = Rounds.bound g constraints := by
  unfold Rounds.bound
  dsimp only
  rw [h.keys_eq, h.size, h.published_eq]
  simp only [h.length_versionsOf_eq]

end CandidateGraph.Twin

/-! ## Graphs of shuffled tasks -/

namespace Task.Shuffled

variable {t t' : Task} {b b' : Builder} (h : t.Shuffled t')

include h

theorem findings (hsteady : t.provider.Steady) (hsteady' : t'.provider.Steady)
    (hb : t.Finished b) (hb' : t'.Finished b') {c : Coordinates} {f : Finding}
    (hf : b.graph.finding? c = some f) :
    ∃ f', b'.graph.finding? c = some f' ∧ f.Shuffled f' := by
  have hregion : b'.region = b.region := congrArg Scope.region (h.scope_eq hsteady hsteady' hb hb')
  have hnode := hb.coverage.recorded c f hf
  rw [← hregion] at hnode
  obtain ⟨f', htells, hshuffled⟩ := h.provider.tells (hb.tells hf)
  exact ⟨f', hb'.finding?_eq hsteady' hnode htells, hshuffled⟩

theorem requestsOf_perm (hsteady : t.provider.Steady) (hsteady' : t'.provider.Steady)
    (hb : t.Finished b) (hb' : t'.Finished b') (c : Coordinates) :
    (b.graph.requestsOf t.rules c).Perm (b'.graph.requestsOf t'.rules c) := by
  unfold CandidateGraph.requestsOf
  rw [CandidateGraph.descriptor?_eq, CandidateGraph.descriptor?_eq, hb.root_eq, hb'.root_eq, h.root]
  cases hf : b.graph.finding? c with
  | some f =>
      obtain ⟨f', hf', hshuffled⟩ := h.findings hsteady hsteady' hb hb' hf
      rw [hf']
      cases hshuffled with
      | missing m => exact List.Perm.refl _
      | found hd => exact Builder.outgoingOf_perm h.rules hd
  | none =>
      cases hf' : b'.graph.finding? c with
      | none => exact List.Perm.refl _
      | some f' =>
          obtain ⟨f, hf'', -⟩ := h.symm.findings hsteady' hsteady hb' hb hf'
          rw [hf] at hf''
          cases hf''

/-- The graphs of finished builders are twins. -/
theorem twin (hsteady : t.provider.Steady) (hsteady' : t'.provider.Steady)
    (hb : t.Finished b) (hb' : t'.Finished b') : b.graph.Twin b'.graph b.region t.declared := by
  have hscope := h.scope_eq hsteady hsteady' hb hb'
  have hregion : b'.region = b.region := congrArg Scope.region hscope
  have hexpanded : b'.expanded = b.expanded :=
    SortedSet.ext fun c => iff_of_eq (congrFun (congrArg Region.nodes hregion) c)
  have harena := hb.tidy.arena
  have harena' := hb'.tidy.arena
  constructor
  case coverage => exact hb.coverage
  case coverage' =>
    have hcoverage := hb'.coverage
    rw [h.declared, hregion] at hcoverage
    exact hcoverage
  case coordinates => exact harena.coordinates
  case coordinates' => exact harena'.coordinates
  case root => rw [hb.root_eq, hb'.root_eq, h.root]
  case outcomes =>
    intro q
    have hasked : (∃ o, b'.graph.outcome? q = some o) ↔ ∃ o, b.graph.outcome? q = some o :=
      iff_of_eq (congrFun (congrArg Scope.asked hscope) q)
    cases ho : b.graph.outcome? q with
    | some o =>
        obtain ⟨o', ho'⟩ := hasked.2 ⟨o, ho⟩
        rw [ho', hb.outcome?_eq ho, hb'.outcome?_eq ho', (h.provider q).outcomeOf]
    | none =>
        cases ho' : b'.graph.outcome? q with
        | none => rfl
        | some o' =>
            obtain ⟨o, ho''⟩ := hasked.1 ⟨o', ho'⟩
            rw [ho] at ho''
            cases ho''
  case findings => exact fun c f hf => h.findings hsteady hsteady' hb hb' hf
  case findings' => exact fun c f hf => h.symm.findings hsteady' hsteady hb' hb hf
  case rootEdges =>
    rw [harena.root.contents_eq, harena'.root.contents_eq, hb.root_eq, hb'.root_eq, h.root]
    exact ((h.dependencies.filter _).map _).map _
  case outgoing =>
    intro c
    by_cases hc : c ∈ b.expanded
    · rw [(harena.outgoing c hc).contents_eq,
        (harena'.outgoing c (hexpanded ▸ hc)).contents_eq]
      exact (h.requestsOf_perm hsteady hsteady' hb hb' c).map _
    · rw [harena.unexpanded c hc, harena'.unexpanded c (hexpanded ▸ hc)]
      exact List.Perm.refl _
  case size =>
    have hroot : b'.graph.rootEdges.length = b.graph.rootEdges.length := by
      rw [harena.root.length_eq, harena'.root.length_eq, h.root]
      exact ((h.dependencies.filter _).map _).length_eq.symm
    rw [harena.size, harena'.size, hroot, hexpanded]
    refine congrArg (_ + List.sum ·) (List.map_congr_left fun c hc => ?_)
    rw [(harena.outgoing c hc).length_eq, (harena'.outgoing c (hexpanded ▸ hc)).length_eq]
    exact (h.requestsOf_perm hsteady hsteady' hb hb' c).length_eq.symm

end Task.Shuffled

end Lockstep
