import Lockstep.Proofs.Outages
import Lockstep.Proofs.Preorders

/-!
# What is found and what is accepted

A catalog finds what the requirement of a query accepts: the first entry of this kind for a version
asked for by name, and for a range the first of the greatest ones, if the order of versions has such
(`Catalog.Finds`). Where it finds nothing, nothing is accepted. A builder takes the version of the
entry, or the one asked for where there is none, so each lookup on record is for a requirement that
accepts its outcome, and an edge that knows the version selected for it is honored
(`Catalog.lookups_accepted`).
-/

namespace Lockstep

/-! ## Entries of a catalog -/

theorem Requirement.accepts_version {order : VersionOrder} (horder : order.Oriented)
    {r : Requirement} {v : String} (h : r.version? = some v) : r.accepts order v = true := by
  cases r with
  | range r => cases h
  | exact w =>
      obtain rfl := Option.some.inj h
      exact horder.same_self w
  | prefer w =>
      obtain rfl := Option.some.inj h
      exact horder.same_self w

namespace Catalog

variable {catalog : Catalog} {order : VersionOrder} {q : Query} {d : Descriptor}

/-- The entry is what a query has to find: one of its module that is accepted, the first of these if
a version is asked for by name, and the first of the greatest of these if a range is. -/
structure Finds (catalog : Catalog) (order : VersionOrder) (q : Query) (d : Descriptor) : Prop where
  entry : d ∈ catalog.modules ∧ d.id = q.target
  accepted : q.requirement.accepts order d.version = true
  first : q.requirement.isRange = false → ∃ before after,
    catalog.published q.target = before ++ d :: after ∧
      ∀ a ∈ before, q.requirement.accepts order a.version = false
  greatest : q.requirement.isRange = true →
    order.IsPreorderOn (fun v => v ∈ catalog.versions q.target ∧
      q.requirement.accepts order v = true) →
    ∃ before after, catalog.published q.target = before ++ d :: after ∧
      (∀ a ∈ before, q.requirement.accepts order a.version = true →
        order.compare a.version d.version = .lt) ∧
      ∀ a ∈ after, q.requirement.accepts order a.version = true →
        order.compare a.version d.version ≠ .gt

/-- A version asked for by name is looked for by what the requirement accepts. -/
theorem find?_eq_of_not_range (horder : order.Oriented) (hq : q.requirement.isRange = false) :
    catalog.find? order q =
      (catalog.published q.target).find? fun d => q.requirement.accepts order d.version := by
  unfold find?
  cases hr : q.requirement with
  | range r =>
      rw [hr] at hq
      cases hq
  | exact v =>
      unfold Requirement.accepts
      simp only [horder.same_comm v]
  | prefer v =>
      unfold Requirement.accepts
      simp only [horder.same_comm v]

theorem eq_of_append_cons {α : Type} {x y z w : List α} {a : α} (hx : a ∉ x) (hz : a ∉ z)
    (h : x ++ a :: y = z ++ a :: w) : x = z ∧ y = w := by
  rcases List.append_eq_append_iff.1 h with ⟨more, rfl, hy⟩ | ⟨more, rfl, hw⟩
  · cases more with
    | nil => simpa using hy
    | cons b more =>
        obtain ⟨rfl, -⟩ := List.cons.inj hy
        simp at hz
  · cases more with
    | nil => simpa [eq_comm] using hw
    | cons b more =>
        obtain ⟨rfl, -⟩ := List.cons.inj hw
        simp at hx

/-- The first entry of the first of the greatest versions in a range is the first of the greatest
entries in it. -/
theorem exists_greatest_of_find? {r : VersionRange} (hr : q.requirement = .range r)
    (h : order.IsPreorderOn fun v => v ∈ catalog.versions q.target ∧ r.contains order v = true)
    (hfind : catalog.find? order q = some d) :
    ∃ before after, catalog.published q.target = before ++ d :: after ∧
      (∀ a ∈ before, r.contains order a.version = true →
        order.compare a.version d.version = .lt) ∧
      ∀ a ∈ after, r.contains order a.version = true →
        order.compare a.version d.version ≠ .gt := by
  unfold find? at hfind
  rw [hr] at hfind
  obtain ⟨best, hbest, hentry⟩ := Option.bind_eq_some_iff.1 hfind
  have haccepted := (List.mem_filter.1 (VersionOrder.mem_of_maxOf hbest)).2
  have hpreorder : order.IsPreorderOn
      (· ∈ (catalog.versions q.target).filter (r.contains order)) := by
    simpa only [List.mem_filter] using h
  obtain ⟨before, after, hsplit, hless, hle⟩ :=
    hpreorder.firstGreatest_of_maxOf (fun _ hu => hu) hbest
  obtain ⟨hversion, entries, others, hentries, hnone⟩ := List.find?_eq_some_iff_append.1 hentry
  rw [beq_iff_eq] at hversion
  -- Neither the entries before this one nor the versions before the greatest one have its text, so
  -- the accepted ones of the former are the latter.
  have hnew : best ∉ (entries.map Descriptor.version).filter (r.contains order) := by
    intro hmem
    obtain ⟨a, ha, heq⟩ := List.mem_map.1 (List.mem_filter.1 hmem).1
    simpa [heq] using hnone a ha
  have hnew' : best ∉ before := by
    intro hmem
    have hmem' := VersionOrder.mem_of_maxOf hbest
    have hself := hpreorder.compare_self hmem'
    rw [hless best hmem] at hself
    cases hself
  have hboth : (entries.map Descriptor.version).filter (r.contains order) ++
      best :: (others.map Descriptor.version).filter (r.contains order) =
        before ++ best :: after := by
    rw [← hsplit]
    unfold versions
    rw [hentries]
    simp [hversion, haccepted]
  obtain ⟨rfl, rfl⟩ := eq_of_append_cons hnew hnew' hboth
  rw [hversion]
  refine ⟨entries, others, hentries, fun a ha hin => ?_, fun a ha hin => ?_⟩
  · exact hless a.version (List.mem_filter.2 ⟨List.mem_map_of_mem ha, hin⟩)
  · exact hle a.version (List.mem_filter.2 ⟨List.mem_map_of_mem ha, hin⟩)

theorem finds_of_find? (horder : order.Oriented) (hfind : catalog.find? order q = some d) :
    catalog.Finds order q d := by
  obtain ⟨hmem, haccepts⟩ := accepts_of_find? horder hfind
  constructor
  case entry => simpa [published] using hmem
  case accepted => exact haccepts
  case first =>
    intro hrange
    rw [find?_eq_of_not_range horder hrange, List.find?_eq_some_iff_append] at hfind
    obtain ⟨-, before, after, hsplit, hnone⟩ := hfind
    exact ⟨before, after, hsplit, fun a ha => by simpa using hnone a ha⟩
  case greatest =>
    intro hrange h
    cases hr : q.requirement with
    | exact v =>
        rw [hr] at hrange
        cases hrange
    | prefer v =>
        rw [hr] at hrange
        cases hrange
    | range r =>
        rw [hr] at h
        exact exists_greatest_of_find? hr h hfind

/-- Of two names of the greatest version in a range, the one published first is found. -/
example :
    let lib (version : String) : Descriptor := { coordinates := ⟨⟨"org", "lib"⟩, version⟩ }
    let catalog : Catalog := ⟨[lib "0.9", lib "1.0", lib "1"]⟩
    catalog.find? Version.segmentOrder ⟨⟨"org", "lib"⟩, .range ⟨none, some ⟨"1", true⟩⟩⟩ =
      some (lib "1.0") := by
  decide +kernel

end Catalog

/-! ## Outcomes of lookups -/

namespace Provider

variable {catalog : Catalog} {order : VersionOrder} {outages : SortedMap ModuleId String}

/-- A lookup comes to the version that is found or, where nothing is, to the one asked for. -/
theorem exists_found_or_named {p : Provider} {q : Query} {v : String} (h : p.answer? q = some v) :
    (∃ d, p q = .ok (some d) ∧ d.version = v) ∨ q.requirement.version? = some v := by
  rw [answer?_eq_some_iff] at h
  unfold CandidateGraph.outcomeOf at h
  split at h
  · next d hd => exact .inl ⟨d, hd, Except.ok.inj h⟩
  all_goals
    split at h
    · next w hw =>
      obtain rfl := Except.ok.inj h
      exact .inr hw
    · cases h

/-- Whatever a lookup comes to, the requirement of its query accepts it. -/
theorem accepts_of_answer? (horder : order.Oriented) {q : Query} {v : String}
    (h : ((catalog.provider order).withOutages outages).answer? q = some v) :
    q.requirement.accepts order v = true := by
  rcases exists_found_or_named h with ⟨d, hd, rfl⟩ | hv
  · unfold withOutages at hd
    split at hd
    · cases hd
    · exact (Catalog.accepts_of_find? horder (Except.ok.inj hd)).2
  · exact Requirement.accepts_version horder hv

end Provider

/-! ## Versions on edges -/

namespace Task

open Builder

variable {t : Task} {b : Builder} {dependencies : List (Dependency × Bool)}

/-- An edge that knows a version knows the one that answers its query. -/
def Informs (t : Task) (b : Builder) : Prop :=
  ∀ e edge v, b.graph.edge? e = some edge → edge.resolved = some v →
    t.provider.answer? edge.query = some v

theorem informs_start (t : Task) : t.Informs t.start := by
  intro e edge v hedge hv
  unfold Task.start at hedge
  rw [edge?_start] at hedge
  obtain ⟨r, -, rfl⟩ := Option.map_eq_some_iff.1 hedge
  cases hv

theorem Informs.record (h : t.Informs b) (q : Query) (answer : Answer) :
    t.Informs (b.record q answer) := by
  intro e edge v hedge
  refine h e edge v ?_
  rwa [← CandidateGraph.edge?_record b.graph q answer e]

/-- The edges of a version know none when they are created. -/
theorem Informs.expandAnswer (h : t.Informs b) (rules : PlatformRules) (q : Query) :
    t.Informs (b.expandAnswer rules q) := by
  rcases exists_expandAnswer_eq rules b q with heq | ⟨v, -, -, queue, heq⟩
  · rwa [heq]
  · rw [heq]
    intro e edge w hedge hw
    rcases CandidateGraph.edge?_or_newEdge_of_edge?_withEdgesOf hedge with hold | ⟨r, -, rfl⟩
    · exact h e edge w hold hw
    · cases hw

theorem Informs.revisit {S : Scope} {todo : List Arrival} (h : t.Informs b)
    (hwithin : t.Within S todo b) {e : EdgeId} {edge : Edge} (hedge : b.graph.edge? e = some edge)
    (incoming : Exclusions) : t.Informs (b.revisit e edge incoming) := by
  intro e' edge' v hedge' hv
  rcases eq_or_edge?_of_edge?_revisit hedge hedge' with ⟨-, rfl⟩ | hold
  · exact hwithin.answer? hv
  · exact h e' edge' v hold hv

theorem Informs.process {S : Scope} {a : Arrival} {rest : List Arrival} (h : t.Informs b)
    (hwithin : t.Within S (a :: rest) b)
    (harena : b.graph.Arena t.rules dependencies b.expanded) :
    t.Informs (b.process t.rules a) := by
  cases a with
  | probe q => exact h.expandAnswer t.rules q
  | edge e incoming =>
      cases hedge : b.graph.edge? e with
      | none => rwa [process_edge_none hedge]
      | some edge =>
          rw [process_edge harena.coordinates hedge]
          exact (h.revisit hwithin hedge incoming).expandAnswer t.rules edge.query

theorem informs_levelWith {answers : Query → Answer}
    (hanswers : ∀ q ∈ b.wanted, answers q = t.provider q)
    (htidy : Tidy t.rules dependencies t.declared b) (hwithin : t.Within everything [] b)
    (h : t.Informs b) : t.Informs (b.levelWith t.rules answers) := by
  have hclosed := t.closed_everything
  refine (levelWith_induction answers (Q := fun todo b => t.Within everything todo b ∧ t.Informs b)
    ?_ ?_ ?_ htidy ?_).2.2
  · rintro b' q ⟨a, ha, hqa⟩ hwanted ⟨hwithin, h⟩
    refine ⟨?_, h.record q _⟩
    rw [hanswers q hwanted]
    exact within_record hwithin ⟨a, .inl ha, hqa⟩
  · rintro a rest b' harena howed - ⟨hwithin, h⟩
    exact ⟨within_process hclosed harena howed hwithin, h.process hwithin harena⟩
  · rintro b' ⟨hwithin, h⟩
    refine ⟨within_probes hwithin, fun e edge v hedge => h e edge v ?_⟩
    rwa [graph_probes] at hedge
  · exact ⟨hwithin.begin, h⟩

/-- In a built graph, an edge that knows a version knows the one that answers its query. -/
theorem answer?_of_resolved {levels : Nat} {s : Unit} {g : CandidateGraph}
    (hrun : (t.start.run t.provider.lookup t.rules levels).run s = (some g, s)) {e : EdgeId}
    {edge : Edge} (hedge : g.edge? e = some edge) {v : String} (hv : edge.resolved = some v) :
    t.provider.answer? edge.query = some v := by
  obtain ⟨b, ⟨-, -, h⟩, -, rfl⟩ := run_induction
    (P := fun b => Tidy t.rules (rootRequests t.root t.dependencies) t.declared b ∧
      t.Within everything [] b ∧ t.Informs b)
    (fun b answers hanswers ⟨htidy, hwithin, h⟩ => by
      have heq : ∀ q ∈ b.wanted, answers q = t.provider q := by
        intro q hq
        obtain ⟨s, hs⟩ := hanswers q hq
        exact hs
      exact ⟨tidy_levelWith answers htidy, within_levelWith t.closed_everything heq htidy hwithin,
        informs_levelWith heq htidy hwithin h⟩)
    ⟨tidy_start t.rules t.root t.dependencies t.constraints, within_start t.closed_everything,
      t.informs_start⟩ hrun
  exact h e edge v hedge hv

end Task

/-! ## Edges of a resolution -/

/-- The version selected for an edge is that of its target, unless the edge is excluded. If its
requirement accepts that version, the edge is honored. -/
theorem Resolution.exists_edge_of_mem {order : VersionOrder} {g : CandidateGraph}
    {constraints : SortedSet Constraint} {res : Resolution}
    (hres : resolve order g constraints = some res) {o : EdgeOutcome} (ho : o ∈ res.edges) :
    ∃ edge, g.edge? o.edge = some edge ∧
      (o.status ≠ .excluded → o.selected = res.versionOf? edge.target) ∧
      ∀ v, o.selected = some v → edge.dependency.requirement.accepts order v = true →
        o.status = .honored := by
  obtain ⟨⟨live, round⟩, hrun, rfl⟩ := Option.map_eq_some_iff.1 hres
  obtain ⟨guide, hwalk⟩ := Rounds.exists_walk hrun
  rcases (mem_outcomes hwalk).1 ho with ⟨e, edge, s, hedge, -, hs, rfl⟩ | ⟨e, he, rfl⟩
  · refine ⟨edge, hedge, fun _ => ?_, fun v hv haccepts => ?_⟩
    · show some s.version = (round.selections.get? edge.target).map Selection.version
      rw [hs]
      rfl
    · obtain rfl := Option.some.inj hv
      exact if_pos haccepts
  · obtain ⟨edge, hedge, -⟩ := (Live.mem_excluded hwalk).1 he
    exact ⟨edge, hedge, fun hne => absurd rfl hne, fun v hv => nomatch hv⟩

/-- What a catalog finds for a query is what it has to find, and where it finds nothing the
requirement accepts nothing that is published. In every graph built over it, with outages or
without, a lookup that came to a version was for a requirement that accepts the version, so an edge
that came to the version selected for it is honored. -/
theorem Catalog.lookups_accepted (catalog : Catalog) (scheme : Scheme) :
    let order := scheme.order
    (∀ q d, catalog.find? order q = some d → catalog.Finds order q d) ∧
    (∀ q, catalog.find? order q = none → ∀ d ∈ catalog.modules, d.id = q.target →
      q.requirement.accepts order d.version = false) ∧
    ∀ outages rules root dependencies declared levels g,
      (((Builder.start root dependencies declared).run
        ((catalog.provider order).withOutages outages).lookup rules levels).run ()).1 = some g →
      (∀ q v, g.outcome? q = some (.ok v) → q.requirement.accepts order v = true) ∧
      ∀ constraints res, resolve order g constraints = some res → ∀ o ∈ res.edges, ∃ edge,
        g.edge? o.edge = some edge ∧
        (o.status ≠ .excluded → o.selected = res.versionOf? edge.target) ∧
        ∀ v, edge.resolved = some v → o.selected = some v → o.status = .honored := by
  intro order
  have horder : order.Oriented := Scheme.oriented scheme
  refine ⟨fun q d hfind => finds_of_find? horder hfind, ?_, ?_⟩
  · intro q hfind d hd hid
    exact accepts_eq_false_of_find? horder hfind (List.mem_filter.2 ⟨hd, by simpa using hid⟩)
  · intro outages rules root dependencies declared levels g hg
    let p := (catalog.provider order).withOutages outages
    let t : Task := ⟨p, rules, root, dependencies, declared⟩
    have hrun : (t.start.run t.provider.lookup t.rules levels).run () = (some g, ()) :=
      Prod.ext hg rfl
    refine ⟨fun q v hq => ?_, fun constraints res hres o ho => ?_⟩
    · obtain ⟨b, hfinished, rfl⟩ := Task.finished_of_run hrun
      apply Provider.accepts_of_answer? horder
      exact Provider.answer?_eq_some_iff.2 (hfinished.outcome?_eq hq).symm
    · obtain ⟨edge, hedge, hselected, hhonored⟩ := Resolution.exists_edge_of_mem hres ho
      refine ⟨edge, hedge, hselected, fun v hv hv' => hhonored v hv' ?_⟩
      exact Provider.accepts_of_answer? horder (Task.answer?_of_resolved hrun hedge hv)

namespace Sample

/-- Any `core` in a range that has its lower end and not its upper one. -/
def coreWithin (lower upper : String) : Query :=
  ⟨id "core", .range ⟨some ⟨lower, true⟩, some ⟨upper, false⟩⟩⟩

def rangingBuild : Option CandidateGraph :=
  (((Builder.start root rangingRoots ∅).run rangingProvider.lookup [] 8).run ()).1

end Sample

/-- The range of `auth` comes to the greatest `core` in it, which is selected. Nothing is published
in a range further up. -/
theorem Catalog.lookups_accepted_over_ranging :
    let order := Scheme.semver.order
    let inside := Sample.coreWithin "1.0.0" "3.0.0"
    let beyond := Sample.coreWithin "4.0.0" "5.0.0"
    (∃ d, Sample.ranging.find? order inside = some d ∧ d.version = "2.0.0" ∧
      Sample.ranging.Finds order inside d ∧ order.IsPreorder) ∧
    (Sample.ranging.find? order beyond = none ∧ ∃ d ∈ Sample.ranging.modules,
      d.id = beyond.target ∧ beyond.requirement.accepts order d.version = false) ∧
    ∃ g res, Sample.rangingBuild = some g ∧ resolve order g ∅ = some res ∧
      (g.outcome? inside = some (.ok "2.0.0") ∧
        inside.requirement.accepts order "2.0.0" = true) ∧
      ∃ o ∈ res.edges, ∃ edge, g.edge? o.edge = some edge ∧ edge.resolved = some "2.0.0" ∧
        o.selected = some "2.0.0" ∧ o.status = .honored := by
  intro order inside beyond
  -- The graph and its resolution are evaluated together, so that one run serves both.
  have hruns : (Sample.rangingBuild.bind fun g => (resolve order g ∅).filter fun res =>
      g.outcome? inside = some (.ok "2.0.0") ∧ ∃ o ∈ res.edges, o.selected = some "2.0.0" ∧
        (g.edge? o.edge).bind Edge.resolved = some "2.0.0").isSome = true := by
    decide +kernel
  have hinside : ((Sample.ranging.find? order inside).filter fun d =>
      d.version = "2.0.0").isSome = true := by
    decide +kernel
  have hbeyond : Sample.ranging.find? order beyond = none := by decide +kernel
  obtain ⟨d, hd⟩ := Option.isSome_iff_exists.1 hinside
  obtain ⟨hfind, hversion⟩ := Option.filter_eq_some_iff.1 hd
  obtain ⟨res, hres⟩ := Option.isSome_iff_exists.1 hruns
  obtain ⟨g, hg, hres⟩ := Option.bind_eq_some_iff.1 hres
  obtain ⟨hresolve, hcond⟩ := Option.filter_eq_some_iff.1 hres
  obtain ⟨houtcome, o, ho, hselected, hresolved⟩ := of_decide_eq_true hcond
  obtain ⟨hfinds, hnothing, hbuilt⟩ := lookups_accepted Sample.ranging .semver
  obtain ⟨haccepted, hhonored⟩ := hbuilt Sample.silent [] Sample.root Sample.rangingRoots ∅ 8 g hg
  obtain ⟨edge, hedge, -, hstatus⟩ := hhonored ∅ res hresolve o ho
  rw [hedge] at hresolved
  have hpreorder : order.IsPreorder := VersionOrder.isPreorder_of_transCmp Version.semanticOrder
  refine ⟨⟨d, hfind, of_decide_eq_true hversion, hfinds inside d hfind, hpreorder⟩,
    ⟨hbeyond, Sample.describe "core" "3.0.0" [], ?_, rfl, ?_⟩,
    g, res, hg, hresolve, ⟨houtcome, haccepted inside _ houtcome⟩, o, ho, edge, hedge, hresolved,
    hselected, hstatus _ hresolved hselected⟩
  · simp [Sample.ranging]
  · exact hnothing beyond hbeyond _ (by simp [Sample.ranging]) rfl

end Lockstep
