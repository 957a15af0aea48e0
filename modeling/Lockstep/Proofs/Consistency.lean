import Lockstep.Proofs.Assembly
import Lockstep.Proofs.Outcomes
import Lockstep.Proofs.Paths
import Lockstep.Proofs.Provision

/-!
# Consistent resolutions

A resolution without errors is closed: what is live is one version of every
module that edges reach, all edges of these versions are accounted for once
each, and the resolved graph has a way from the root to every module
(`consistent_of_build`).
-/

namespace Lockstep

/-- What the outcome of an edge has to say. -/
structure EdgeOutcome.Accounts (order : VersionOrder) (res : Resolution) (o : EdgeOutcome)
    (edge : Edge) : Prop where
  number : edge.id = o.edge
  excluded : o.status = .excluded ↔
    (Live.exclusionsOf res.live.exclusions edge.source).exclude edge.target = true
  unselected : o.status = .excluded → o.selected = none
  selected : o.status ≠ .excluded → ∃ v, o.selected = some v ∧ res.versionOf? edge.target = some v ∧
    (o.status = .honored ↔ edge.dependency.requirement.accepts order v = true)

/-- A way from the root to a module, along reported edges to the versions selected for them. -/
structure ResolvedGraph.Leads (g : ResolvedGraph) (path : List Coordinates) (c : Coordinates) :
    Prop where
  first : path.head? = some g.root
  last : path.getLast? = some c
  joined : path.IsChain fun a b => ∃ r ∈ g.reports, r.status ≠ .excluded ∧ r.source = a ∧
    r.target = b.id ∧ r.selected = some b.version

/-- A resolution that holds together. -/
structure Resolution.Consistent (order : VersionOrder) (g : CandidateGraph) (res : Resolution) :
    Prop where
  nodes : ∀ c, c ∈ res.live.nodes ↔ res.versionOf? c.id = some c.version
  reached : ∀ id, (∃ v, res.versionOf? id = some v) ↔ res.Reaches g id
  unrestricted : res.live.exclusions.get? g.root.id = none
  described : ∀ id v, res.versionOf? id = some v → ∃ d, g.descriptor? (id.atVersion v) = some d
  ascending : (res.edges.map EdgeOutcome.edge).Pairwise (· < ·)
  complete : ∀ e, e ∈ res.edges.map EdgeOutcome.edge ↔
    e ∈ g.rootEdges ∨ ∃ id v, res.versionOf? id = some v ∧ e ∈ g.outgoing (id.atVersion v)
  accounted : ∀ o ∈ res.edges, ∃ edge, g.edge? o.edge = some edge ∧ o.Accounts order res edge

namespace Rounds.Settles

variable {rules : PlatformRules} {dependencies : List (Dependency × Bool)} {order : VersionOrder}
  {g : CandidateGraph} {expanded : SortedSet Coordinates} {constraints : SortedSet Constraint}
  {r : Rounds} {live : Live} {round : Round} (h : r.Settles order g constraints live round)
  (harena : g.Arena rules dependencies expanded)

include h harena

/-! ## Edges -/

theorem mem_edges_iff {e : EdgeId} :
    e ∈ (Resolution.ofRound order g live round).edges.map EdgeOutcome.edge ↔
      e ∈ g.rootEdges ∨ ∃ id v, (Resolution.ofRound order g live round).versionOf? id = some v ∧
        e ∈ g.outgoing (id.atVersion v) := by
  constructor
  · intro he
    obtain ⟨o, ho, rfl⟩ := List.mem_map.1 he
    rcases (Resolution.mem_outcomes h.walked).1 ho with
      ⟨e, edge, s, -, hfollows, -, rfl⟩ | ⟨e, hexcluded, rfl⟩
    · rcases hfollows with he | ⟨c, hc, he, -⟩
      · exact Or.inl he
      · exact Or.inr ⟨c.id, c.version, h.mem_nodes_iff_versionOf?.1 hc, he⟩
    · obtain ⟨-, -, c, hc, hout, -⟩ := (Live.mem_excluded h.walked).1 hexcluded
      exact Or.inr ⟨c.id, c.version, h.mem_nodes_iff_versionOf?.1 hc, hout⟩
  · have htaken : ∀ {edge}, g.edge? e = some edge → Live.Follows g live e edge →
        e ∈ (Resolution.ofRound order g live round).edges.map EdgeOutcome.edge := by
      intro edge hedge hfollows
      obtain ⟨s, hs, -⟩ := h.version?_eq hedge hfollows
      exact List.mem_map.2 ⟨Resolution.takenOutcome order s e edge,
        (Resolution.mem_outcomes h.walked).2 (Or.inl ⟨e, edge, s, hedge, hfollows, hs, rfl⟩), rfl⟩
    rintro (he | ⟨id, v, hv, he⟩)
    · obtain ⟨edge, hedge, -⟩ := harena.source_of_mem_rootEdges he
      exact htaken hedge (Or.inl he)
    · have hlive : id.atVersion v ∈ live.nodes := h.mem_nodes_iff_versionOf?.2 hv
      obtain ⟨edge, hedge, -⟩ := harena.source_of_mem_outgoing he
      cases hex : (Live.exclusionsOf live.exclusions (id.atVersion v)).exclude edge.target with
      | false => exact htaken hedge (Or.inr ⟨id.atVersion v, hlive, he, hex⟩)
      | true =>
          have hexcluded := (Live.mem_excluded h.walked).2 ⟨edge, hedge, _, hlive, he, hex⟩
          exact List.mem_map.2 ⟨Resolution.excludedOutcome e,
            (Resolution.mem_outcomes h.walked).2 (Or.inr ⟨e, hexcluded, rfl⟩), rfl⟩

theorem exists_accounts {o : EdgeOutcome}
    (ho : o ∈ (Resolution.ofRound order g live round).edges) :
    ∃ edge, g.edge? o.edge = some edge ∧
      o.Accounts order (Resolution.ofRound order g live round) edge := by
  rcases (Resolution.mem_outcomes h.walked).1 ho with
    ⟨e, edge, s, hedge, hfollows, hs, rfl⟩ | ⟨e, he, rfl⟩
  · refine ⟨edge, hedge, harena.number e edge hedge, ?_, ?_, ?_⟩
    all_goals
      unfold Resolution.takenOutcome
      dsimp only
    · have hex := Live.exclude_eq_false_of_follows harena h.walked hedge hfollows
      constructor
      · intro hstatus
        split at hstatus <;> cases hstatus
      · intro hexcluded
        exact absurd (hex.symm.trans hexcluded) (by decide)
    · intro hstatus
      split at hstatus <;> cases hstatus
    · intro _
      refine ⟨s.version, rfl, Option.map_eq_some_iff.2 ⟨s, hs, rfl⟩, ?_⟩
      split
      · next hacc => exact ⟨fun _ => hacc, fun _ => rfl⟩
      · next hacc => exact ⟨fun hstatus => (by cases hstatus), fun hacc' => absurd hacc' hacc⟩
  · obtain ⟨edge, hedge, c, -, hout, hex⟩ := (Live.mem_excluded h.walked).1 he
    obtain ⟨edge', hedge', hsource⟩ := harena.source_of_mem_outgoing hout
    rw [hedge] at hedge'
    obtain rfl := Option.some.inj hedge'
    refine ⟨edge, hedge, harena.number e edge hedge, ?_, fun _ => rfl, fun hne => absurd rfl hne⟩
    rw [hsource]
    exact ⟨fun _ => hex, fun _ => rfl⟩

/-- The last round of rounds without errors gives a consistent resolution. -/
theorem consistent :
    (Resolution.ofRound order g live round).Consistent order g where
  nodes _ := h.mem_nodes_iff_versionOf?
  reached _ := h.reaches_iff.symm
  described id v hv := by
    obtain ⟨s, hs, rfl⟩ := Option.map_eq_some_iff.1 hv
    obtain ⟨es, hes⟩ := h.exists_incoming hs
    obtain ⟨s', hs', -, hd⟩ := h.exists_selected hes
    rw [show round.selections.get? id = some s from hs] at hs'
    obtain rfl := Option.some.inj hs'
    exact hd
  unrestricted := Live.get?_exclusions_root harena h.walked
  ascending := Resolution.ascending_outcomes harena h.walked
  complete _ := h.mem_edges_iff harena
  accounted _ := h.exists_accounts harena

end Rounds.Settles

/-! ## Ways from the root -/

namespace Resolution.Consistent

variable {rules : PlatformRules} {dependencies : List (Dependency × Bool)} {order : VersionOrder}
  {g : CandidateGraph} {expanded : SortedSet Coordinates} {res : Resolution}
  (h : res.Consistent order g) {platforms : List AlignedPlatform} {iterations : Nat}

section

include h

/-- An edge that is let through leads from the node of its source to that of its target. -/
theorem linked {e : EdgeId} {edge : Edge} (hedge : g.edge? e = some edge)
    (he : e ∈ res.edges.map EdgeOutcome.edge)
    (hex : (Live.exclusionsOf res.live.exclusions edge.source).exclude edge.target = false)
    {a b : Nat}
    (ha : (ResolvedGraph.ofResolution g res platforms iterations).sourceNode? edge.source = some a)
    (hb : (ResolvedGraph.ofResolution g res platforms iterations).numbers.get? edge.target =
      some b) :
    (ResolvedGraph.ofResolution g res platforms iterations).linked a b = true := by
  obtain ⟨o, ho, rfl⟩ := List.mem_map.1 he
  obtain ⟨edge', hedge', haccounts⟩ := h.accounted o ho
  rw [hedge] at hedge'
  obtain rfl := Option.some.inj hedge'
  refine ResolvedGraph.linked_ofResolution ho (fun hstatus => ?_) hedge ha hb
  have hexcluded := haccounts.excluded.1 hstatus
  rw [hex] at hexcluded
  cases hexcluded

end

variable (harena : g.Arena rules dependencies expanded)

include h harena

theorem id_ne_root {id : ModuleId} {v : String} (hv : res.versionOf? id = some v) :
    id ≠ g.root.id := by
  cases (h.reached id).1 ⟨v, hv⟩ with
  | root he hedge => exact harena.target _ _ hedge
  | onward _ _ _ hedge _ => exact harena.target _ _ hedge

/-- Links reach whatever edges reach. -/
theorem linked_of_reaches {id : ModuleId} (hreaches : res.Reaches g id) {n : Nat}
    (hn : (ResolvedGraph.ofResolution g res platforms iterations).numbers.get? id = some n) :
    Relation.ReflTransGen
      (fun a b => (ResolvedGraph.ofResolution g res platforms iterations).linked a b = true)
      0 n := by
  induction hreaches generalizing n with
  | root he hedge =>
      obtain ⟨edge', hedge', hsource⟩ := harena.source_of_mem_rootEdges he
      rw [hedge] at hedge'
      obtain rfl := Option.some.inj hedge'
      refine .single (h.linked hedge ((h.complete _).2 (Or.inl he)) ?_ ?_ hn)
      · rw [hsource]
        unfold Live.exclusionsOf
        rw [h.unrestricted]
        exact Exclusions.exclude_empty _
      · rw [hsource]
        exact ResolvedGraph.sourceNode?_root
  | @onward id v e edge hreaches hv he hedge hex ih =>
      obtain ⟨edge', hedge', hsource⟩ := harena.source_of_mem_outgoing he
      rw [hedge] at hedge'
      obtain rfl := Option.some.inj hedge'
      obtain ⟨s, hs, hversion⟩ := Option.map_eq_some_iff.1 hv
      obtain ⟨m, hm, -⟩ := ResolvedGraph.exists_number g platforms iterations hs
      refine (ih hm).tail (h.linked hedge ((h.complete _).2 (Or.inr ⟨id, v, hv, he⟩)) ?_ ?_ hn)
      · rw [hsource]
        exact hex
      · have hne : edge.source ≠ g.root := by
          rw [hsource]
          intro heq
          exact h.id_ne_root harena hv (congrArg Coordinates.id heq)
        rw [ResolvedGraph.sourceNode?_of_ne hne, hsource]
        exact hm

/-- The source of a report is the root or a selected version. -/
theorem source_of_report {r : EdgeReport}
    (hr : r ∈ (ResolvedGraph.ofResolution g res platforms iterations).reports) :
    r.source = g.root ∨ res.versionOf? r.source.id = some r.source.version := by
  obtain ⟨o, ho, hreport⟩ := List.mem_filterMap.1 (ResolvedGraph.mem_reports hr)
  obtain ⟨edge, hedge, -⟩ := h.accounted o ho
  obtain ⟨-, hsource, -⟩ := ResolvedGraph.report?_eq_some hedge hreport
  rw [hsource]
  rcases (h.complete o.edge).1 (List.mem_map_of_mem ho) with he | ⟨id, v, hv, he⟩
  · obtain ⟨edge', hedge', hroot⟩ := harena.source_of_mem_rootEdges he
    rw [hedge] at hedge'
    obtain rfl := Option.some.inj hedge'
    exact Or.inl hroot
  · obtain ⟨edge', hedge', hsource⟩ := harena.source_of_mem_outgoing he
    rw [hedge] at hedge'
    obtain rfl := Option.some.inj hedge'
    rw [hsource]
    exact Or.inr hv

/-- A link stands for a report that joins the coordinates of its ends. -/
theorem joined_of_linked {a b : Nat}
    (hl : (ResolvedGraph.ofResolution g res platforms iterations).linked a b = true) :
    ∃ r ∈ (ResolvedGraph.ofResolution g res platforms iterations).reports,
      r.status ≠ .excluded ∧
      r.source = (ResolvedGraph.ofResolution g res platforms iterations).coordinates a ∧
      r.target = ((ResolvedGraph.ofResolution g res platforms iterations).coordinates b).id ∧
      r.selected =
        some ((ResolvedGraph.ofResolution g res platforms iterations).coordinates b).version := by
  obtain ⟨l, hmem, hcond⟩ := List.any_eq_true.1 hl
  rw [Bool.and_eq_true, beq_iff_eq, beq_iff_eq] at hcond
  obtain ⟨rfl, rfl⟩ := hcond
  obtain ⟨r, hr, hstatus, hsource, htarget⟩ := ResolvedGraph.stored_ofResolution.link l hmem
  have hr := Array.mem_of_getElem? hr
  obtain ⟨s, hs⟩ := ResolvedGraph.contains_ofResolution.1 (SortedMap.contains_iff.2 ⟨_, htarget⟩)
  obtain ⟨n, hn, hcoordinates⟩ := ResolvedGraph.exists_number g platforms iterations hs
  rw [htarget] at hn
  obtain rfl := Option.some.inj hn
  refine ⟨r, hr, hstatus, ?_, ?_, ?_⟩
  · rcases h.source_of_report harena hr with hroot | hv
    · rw [hroot, ResolvedGraph.sourceNode?_root] at hsource
      rw [← Option.some.inj hsource, hroot]
      exact ResolvedGraph.root_ofResolution.symm
    · have hne : r.source ≠ g.root := fun heq =>
        h.id_ne_root harena hv (congrArg Coordinates.id heq)
      rw [ResolvedGraph.sourceNode?_of_ne hne] at hsource
      obtain ⟨s', hs', hversion⟩ := Option.map_eq_some_iff.1 hv
      obtain ⟨n, hn, hcoordinates'⟩ := ResolvedGraph.exists_number g platforms
        iterations hs'
      rw [hsource] at hn
      obtain rfl := Option.some.inj hn
      rw [hcoordinates', hversion]
      rfl
  · rw [hcoordinates]
    rfl
  · obtain ⟨o, ho, hreport⟩ := List.mem_filterMap.1 (ResolvedGraph.mem_reports hr)
    obtain ⟨edge, hedge, haccounts⟩ := h.accounted o ho
    obtain ⟨hostatus, -, hotarget, hselected⟩ := ResolvedGraph.report?_eq_some hedge hreport
    obtain ⟨v, hv, hversion, -⟩ := haccounts.selected (hostatus ▸ hstatus)
    rw [← hotarget] at hversion
    obtain ⟨s', hs', rfl⟩ := Option.map_eq_some_iff.1 hversion
    rw [hs] at hs'
    obtain rfl := Option.some.inj hs'
    rw [hselected, hv, hcoordinates]
    rfl

/-- The way that is found to a module. -/
theorem exists_path {key : String} {id : ModuleId} {v : String}
    (hkey : ModuleId.ofString? key = some id) (hv : res.versionOf? id = some v) :
    ∃ path, (ResolvedGraph.ofResolution g res platforms iterations).path? key = some path ∧
      (ResolvedGraph.ofResolution g res platforms iterations).Leads path (id.atVersion v) := by
  obtain ⟨s, hs, rfl⟩ := Option.map_eq_some_iff.1 hv
  obtain ⟨n, hn, hcoordinates⟩ := ResolvedGraph.exists_number g platforms iterations hs
  obtain ⟨way, hsearch, hfirst, hlast, hlinked⟩ :=
    ResolvedGraph.exists_way_of_reaches ResolvedGraph.stored_ofResolution
      (h.linked_of_reaches harena ((h.reached id).1 ⟨_, hv⟩) hn)
  refine ⟨way.map (ResolvedGraph.ofResolution g res platforms iterations).coordinates, ?_, ?_, ?_,
    ?_⟩
  · unfold ResolvedGraph.path? ResolvedGraph.node?
    rw [hkey]
    exact Option.bind_eq_some_iff.2 ⟨n, hn, Option.bind_eq_some_iff.2 ⟨way, hsearch, rfl⟩⟩
  · rw [List.head?_map, hfirst]
    rfl
  · rw [List.getLast?_map, hlast, Option.map_some, hcoordinates]
  · exact List.isChain_map_of_isChain _ (fun a b hl => h.joined_of_linked harena hl) hlinked

end Resolution.Consistent

/-- A resolution of a builder's graph is consistent unless it has errors, and its modules can all be
found from the root. -/
theorem consistent_of_build {σ : Type} {lookup : Lookup σ} {rules : PlatformRules}
    {root : Coordinates} {dependencies : List Dependency} {constraints : SortedSet Constraint}
    {levels : Nat} {s s' : σ} {g : CandidateGraph} {order : VersionOrder} {res : Resolution}
    (hbuild : ((Builder.start root dependencies constraints).run lookup rules levels).run s =
      (some g, s'))
    (hres : g.ResolvesTo order constraints res) (herrors : res.errors = []) :
    res.Consistent order g ∧ ∀ platforms iterations,
      (∀ id, (ResolvedGraph.ofResolution g res platforms iterations).versionOf? id =
        res.versionOf? id) ∧
      ∀ key id v, ModuleId.ofString? key = some id → res.versionOf? id = some v → ∃ path,
        (ResolvedGraph.ofResolution g res platforms iterations).path? key = some path ∧
        (ResolvedGraph.ofResolution g res platforms iterations).Leads path (id.atVersion v) := by
  obtain ⟨expanded, harena⟩ := Builder.arena_of_run hbuild
  obtain ⟨rounds, live, round, hrun, rfl⟩ := hres
  obtain ⟨r, -, hsettles⟩ := Rounds.exists_settles hrun herrors
  have hconsistent := hsettles.consistent harena
  refine ⟨hconsistent, fun platforms iterations => ⟨?_, ?_⟩⟩
  · exact fun id => ResolvedGraph.versionOf?_ofResolution id
  · exact fun key id v hkey hv => hconsistent.exists_path harena hkey hv

theorem consistent_of_build_after_downgrade : ∃ g res, Sample.downgradeBuild = (some g, ()) ∧
    g.ResolvesTo Version.semanticOrder ∅ res ∧ res.errors = [] ∧
    res.versionOf? (Sample.id "base") = some "2" ∧ res.Consistent Version.semanticOrder g ∧
    ∃ path, (ResolvedGraph.ofResolution g res [] 1).path? "org:base" = some path ∧
      (ResolvedGraph.ofResolution g res [] 1).Leads path ⟨Sample.id "base", "2"⟩ := by
  have hresolved : (Sample.downgradeBuild.1.bind fun g =>
      (resolve Version.semanticOrder g ∅).filter fun res =>
        res.errors = [] ∧ res.versionOf? (Sample.id "base") = some "2").isSome = true := by
    decide +kernel
  obtain ⟨res, hres⟩ := Option.isSome_iff_exists.1 hresolved
  obtain ⟨g, hg, hres⟩ := Option.bind_eq_some_iff.1 hres
  obtain ⟨hresolve, hcond⟩ := Option.filter_eq_some_iff.1 hres
  obtain ⟨herrors, hversion⟩ := of_decide_eq_true hcond
  have hbuild : Sample.downgradeBuild = (some g, ()) := by
    rw [← hg]
  have hresolves := CandidateGraph.resolvesTo_of_resolve hresolve
  obtain ⟨hconsistent, hpaths⟩ := consistent_of_build hbuild hresolves herrors
  obtain ⟨path, hpath⟩ := (hpaths [] 1).2 "org:base" (Sample.id "base") "2" (by decide) hversion
  exact ⟨g, res, hbuild, hresolves, herrors, hversion, hconsistent, path, hpath⟩

end Lockstep
