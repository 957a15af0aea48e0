import Lockstep.Proofs.Recalling

/-!
# Conflicts and overridden edges

A conflict is a demand that the selected version does not meet, whether it was
made by an edge or by a constraint. An edge is reported as overridden if the
selected version does not meet it. The two reports agree on edges
(`Request.contests_of_converged`), but for one thing: a demand that is only
remembered is a conflict too, although its edge is not followed any more and is
not reported. It may name a version that is not selected.
-/

namespace Lockstep

/-! ## Who asks for what -/

/-- The module, the requester and what it asks for. -/
def Conflict.contest (k : Conflict) : ModuleId × String × String :=
  (k.target, k.requester, k.requested)

def EdgeReport.contest (r : EdgeReport) : ModuleId × String × String :=
  (r.target, r.source.text, r.requested)

def Edge.contest (edge : Edge) : ModuleId × String × String :=
  (edge.target, edge.source.text, edge.dependency.requirement.text)

namespace Resolution

/-- The conflict that a demand on a selected module is. -/
def conflictOf (id : ModuleId) (s : Selection) (d : Demand) : Conflict where
  target := id
  requester := d.requester
  requested := d.requirement.text
  resolved := s.version
  reason := s.reason

theorem mem_conflictsOf {order : VersionOrder} {round : Round} {k : Conflict} :
    k ∈ conflictsOf order round ↔ ∃ id s d, round.selections.get? id = some s ∧ d ∈ s.demands ∧
      d.requirement.accepts order s.version = false ∧ conflictOf id s d = k := by
  unfold conflictsOf
  rw [List.mem_flatMap]
  constructor
  · rintro ⟨⟨id, s⟩, hs, hk⟩
    obtain ⟨d, hd, rfl⟩ := List.mem_map.1 hk
    obtain ⟨hd, hrefused⟩ := List.mem_filter.1 hd
    rw [Bool.not_eq_true'] at hrefused
    exact ⟨id, s, d, SortedMap.mem_entries_iff.1 hs, hd, hrefused, rfl⟩
  · rintro ⟨id, s, d, hs, hd, hrefused, rfl⟩
    refine ⟨(id, s), SortedMap.mem_entries_iff.2 hs, List.mem_map.2 ⟨d, ?_, rfl⟩⟩
    exact List.mem_filter.2 ⟨hd, Bool.not_eq_true' _ ▸ hrefused⟩

/-- The conflict is a demand of an edge. -/
def FromEdge (order : VersionOrder) (res : Resolution) (k : Conflict) : Prop :=
  ∃ id s d, res.selections.get? id = some s ∧ d ∈ s.demands ∧ d.kind.isEdge = true ∧
    d.requirement.accepts order s.version = false ∧ conflictOf id s d = k

/-- The last round remembers the demand of an edge, and the selected version does not meet it. -/
structure Lingers (order : VersionOrder) (g : CandidateGraph) (constraints : SortedSet Constraint)
    (res : Resolution) (edge : Edge) : Prop where
  numbered : ∃ e, g.edge? e = some edge
  recalled : res.Recalls order g constraints edge.target (Demands.ofEdge g edge)
  refused : ∃ v, res.versionOf? edge.target = some v ∧
    edge.dependency.requirement.accepts order v = false

end Resolution

namespace ResolvedGraph

variable {g : CandidateGraph} {res : Resolution} {platforms : List AlignedPlatform}
  {iterations : Nat}

/-- The reports of a graph are those on the outcomes of edges. -/
theorem mem_reports_iff {r : EdgeReport} :
    r ∈ (ofResolution g res platforms iterations).reports ↔
      ∃ o ∈ res.edges, report? g o = some r := by
  rw [← Array.mem_toList_iff, toList_reports_ofResolution]
  exact List.mem_filterMap

end ResolvedGraph

namespace Rounds.Settles

variable {order : VersionOrder} {g : CandidateGraph} {constraints : SortedSet Constraint}
  {r : Rounds} {live : Live} {round : Round} (h : r.Settles order g constraints live round)

include h

/-- The edges that are reported as overridden are those followed to a version that does not meet
them. -/
theorem overridden_iff {platforms : List AlignedPlatform} {iterations : Nat}
    {t : ModuleId × String × String} :
    (∃ report ∈ (ResolvedGraph.ofResolution g (Resolution.ofRound order g live round) platforms
        iterations).reports, report.status = .overridden ∧ report.contest = t) ↔
      ∃ e edge s, g.edge? e = some edge ∧ Live.Follows g live e edge ∧
        round.selections.get? edge.target = some s ∧
        edge.dependency.requirement.accepts order s.version = false ∧ edge.contest = t := by
  constructor
  · rintro ⟨report, hreport, hstatus, rfl⟩
    obtain ⟨o, ho, hreport⟩ := ResolvedGraph.mem_reports_iff.1 hreport
    rcases (Resolution.mem_outcomes h.walked).1 ho with
      ⟨e, edge, s, hedge, hfollows, hs, rfl⟩ | ⟨e, -, rfl⟩
    · unfold ResolvedGraph.report? at hreport
      rw [show g.edge? (Resolution.takenOutcome order s e edge).edge = some edge from hedge]
        at hreport
      obtain rfl := Option.some.inj hreport
      refine ⟨e, edge, s, hedge, hfollows, hs, Bool.eq_false_iff.2 fun haccepts => ?_, rfl⟩
      unfold Resolution.takenOutcome at hstatus
      rw [if_pos haccepts] at hstatus
      cases hstatus
    · obtain ⟨edge, -, rfl⟩ := Option.map_eq_some_iff.1 hreport
      cases hstatus
  · rintro ⟨e, edge, s, hedge, hfollows, hs, hrefused, rfl⟩
    have ho : Resolution.takenOutcome order s e edge ∈ Resolution.outcomes order g live round :=
      (Resolution.mem_outcomes h.walked).2 (Or.inl ⟨e, edge, s, hedge, hfollows, hs, rfl⟩)
    refine ⟨_, ResolvedGraph.mem_reports_iff.2 ⟨_, ho, Option.map_eq_some_iff.2 ⟨edge, hedge, rfl⟩⟩,
      ?_, rfl⟩
    exact if_neg (Bool.eq_false_iff.1 hrefused)

/-- What an edge followed now or remembered asks for is a conflict if the selected version does not
meet it, and so it is for every conflict that comes from an edge. -/
theorem fromEdge_iff (hr : Reached order g constraints r) {t : ModuleId × String × String} :
    (∃ k, (Resolution.ofRound order g live round).FromEdge order k ∧ k.contest = t) ↔
      (∃ e edge s, g.edge? e = some edge ∧ Live.Follows g live e edge ∧
        round.selections.get? edge.target = some s ∧
        edge.dependency.requirement.accepts order s.version = false ∧ edge.contest = t) ∨
      ∃ edge, (Resolution.ofRound order g live round).Lingers order g constraints edge ∧
        edge.contest = t := by
  constructor
  · rintro ⟨k, ⟨id, s, d, hs, hd, hkind, hrefused, rfl⟩, rfl⟩
    obtain ⟨c, rfl, horigin⟩ := (h.mem_demands_iff hs).1 hd
    rcases horigin with hrecalled | harises
    · right
      obtain ⟨r', live', -, -, harises⟩ := (meets_of_recalled hr hrecalled).exists_arises
      obtain ⟨e, edge, hfound, -, rfl, rfl⟩ := harises.exists_edge hkind
      exact ⟨edge, ⟨⟨e, hfound⟩, ⟨r, live, round, hr, h, rfl, hrecalled⟩, s.version,
        Option.map_eq_some_iff.2 ⟨s, hs, rfl⟩, hrefused⟩, rfl⟩
    · left
      obtain ⟨e, edge, hfound, hfollows, rfl, rfl⟩ := harises.exists_edge hkind
      exact ⟨e, edge, s, hfound, hfollows, hs, hrefused, rfl⟩
  · rintro (⟨e, edge, s, hedge, hfollows, hs, hrefused, rfl⟩ | ⟨edge, hlingers, rfl⟩)
    · have hd := (h.mem_demands_iff hs).2
        ⟨_, rfl, Or.inr (Or.inl ⟨e, edge, hedge, hfollows, rfl, rfl⟩)⟩
      exact ⟨_, ⟨edge.target, s, _, hs, hd, Demands.isEdge_ofEdge g edge, hrefused, rfl⟩, rfl⟩
    · obtain ⟨-, ⟨r', live', round', -, hsettles, heq, hrecalled⟩, v, hv, hrefused⟩ := hlingers
      -- whichever last round remembers it, the selections are the same
      obtain ⟨s, hs, rfl⟩ := Option.map_eq_some_iff.1 hv
      have hs' : round'.selections.get? edge.target = some s := by
        rw [heq] at hs
        exact hs
      have hd := (hsettles.mem_demands_iff hs').2 ⟨_, rfl, Or.inl hrecalled⟩
      exact ⟨_, ⟨edge.target, s, _, hs, hd, Demands.isEdge_ofEdge g edge, hrefused, rfl⟩, rfl⟩

/-- A conflict comes from an edge, or its requester is the source of a constraint. -/
theorem fromEdge_or_source (hr : Reached order g constraints r) {k : Conflict}
    (hk : k ∈ (Resolution.ofRound order g live round).conflicts) :
    (Resolution.ofRound order g live round).FromEdge order k ∨
      ∃ source : Source, k.requester = source.text := by
  obtain ⟨id, s, d, hs, hd, hrefused, rfl⟩ := Resolution.mem_conflictsOf.1 hk
  cases hkind : d.kind.isEdge with
  | true => exact Or.inl ⟨id, s, d, hs, hd, hkind, hrefused, rfl⟩
  | false =>
      right
      obtain ⟨c, rfl, horigin⟩ := (h.mem_demands_iff hs).1 hd
      have harises : ∃ guide' live', Demands.Arises g live' guide' constraints id c := by
        rcases horigin with hrecalled | harises
        · obtain ⟨r', live', -, -, harises⟩ := (meets_of_recalled hr hrecalled).exists_arises
          exact ⟨_, _, harises⟩
        · exact ⟨_, _, harises⟩
      obtain ⟨guide', live', harises⟩ := harises
      obtain ⟨k, -, -, rfl⟩ := harises.exists_constraint hkind
      exact ⟨k.source, rfl⟩

end Rounds.Settles

/-- Where a run converges, the conflicts that come from edges are those of the edges reported as
overridden, and of edges that are remembered and not met. Other conflicts name the source of a
constraint. An edge that is reported leads from the root or from a selected version. -/
theorem Request.contests_of_converged {request : Request} {settings : Settings}
    {catalog : Catalog} {G : ResolvedGraph}
    (h : request.resolveOver settings catalog = .converged G) :
    ∃ it b res, (Run.ofRequest request settings catalog).Converges
        (catalog.provider (request.order settings)) it b res ∧
      G = (Run.ofRequest request settings catalog).graphOf it b.graph res ∧
      (∀ k, res.FromEdge (request.order settings) k → k ∈ G.conflicts) ∧
      (∀ k ∈ G.conflicts, res.FromEdge (request.order settings) k ∨
        ∃ source : Source, k.requester = source.text) ∧
      (∀ t, (∃ k, res.FromEdge (request.order settings) k ∧ k.contest = t) ↔
        (∃ r ∈ G.reports, r.status = .overridden ∧ r.contest = t) ∨
          ∃ edge, res.Lingers (request.order settings) b.graph it.constraints edge ∧
            edge.contest = t) ∧
      ∀ r ∈ G.reports, r.source = G.root ∨ G.versionOf? r.source.id = some r.source.version := by
  obtain ⟨it, b, res, hconverges, rfl, -⟩ := Run.exists_converges h
  have hconsistent := hconverges.consistent
  have harena := hconverges.finished.tidy.arena
  obtain ⟨last, live, round, hreached, hsettles, hres⟩ := hconverges.exists_reached
  refine ⟨it, b, res, hconverges, rfl, ?_, ?_, ?_, ?_⟩
  · rintro k ⟨id, s, d, hs, hd, -, hrefused, rfl⟩
    rw [hres] at hs ⊢
    exact Resolution.mem_conflictsOf.2 ⟨id, s, d, hs, hd, hrefused, rfl⟩
  · intro k hk
    have hk : k ∈ res.conflicts := hk
    rw [hres] at hk ⊢
    exact hsettles.fromEdge_or_source hreached hk
  · intro t
    unfold Run.graphOf
    rw [hres]
    rw [hsettles.overridden_iff]
    exact hsettles.fromEdge_iff hreached
  · intro r hr
    unfold Run.graphOf
    rw [ResolvedGraph.root_ofResolution, ResolvedGraph.versionOf?_ofResolution]
    exact hconsistent.source_of_report harena hr

/-! ### Conflicts of reported edges, and of others -/

namespace Sample

/-- The `core` that the root asks for is not the one that `auth` needs. -/
def outbid : Request where
  root
  dependencies := [dependency "core" "1", dependency "auth" "1"]

def outbidding : Catalog :=
  ⟨[describe "auth" "1" [dependency "core" "2"], describe "core" "1" [], describe "core" "2" []]⟩

/-- The `core` that the root asks for is not the one that an older `base` needs, which the `auth`
that it asks for takes out. -/
def outlived : Request where
  root
  dependencies := [dependency "auth" "1", dependency "base" "1", dependency "core" "2"]

def outliving : Catalog :=
  ⟨[describe "auth" "1" [], describe "auth" "2" [] [⟨id "base", .exact "2"⟩],
    describe "base" "1" [dependency "auth" "2", dependency "core" "1"],
    describe "base" "2" [], describe "core" "1" [], describe "core" "2" []]⟩

end Sample

theorem Request.contests_over_outbidding : ∃ G it b res,
    Sample.outbid.resolveOver {} Sample.outbidding = .converged G ∧
    (Run.ofRequest Sample.outbid {} Sample.outbidding).Converges
      (Sample.outbidding.provider (Sample.outbid.order {})) it b res ∧
    ∃ k ∈ G.conflicts, res.FromEdge (Sample.outbid.order {}) k ∧
      k.contest = (Sample.id "core", "org:app:1", "1") := by
  have hfound : ((Sample.outbid.resolveOver {} Sample.outbidding).graph?.any fun G =>
      ∃ r ∈ G.reports, r.status = .overridden ∧
        r.contest = (Sample.id "core", "org:app:1", "1")) = true := by
    decide +kernel
  obtain ⟨G, hgraph, hcond⟩ := (Option.any_eq_true _ _).1 hfound
  have hconverged := Outcome.eq_of_graph? hgraph
  obtain ⟨it, b, res, hconverges, -, hentries, -, hcontests, -⟩ := contests_of_converged hconverged
  obtain ⟨k, hk, hcontest⟩ := (hcontests _).2 (Or.inl (of_decide_eq_true hcond))
  exact ⟨G, it, b, res, hconverged, hconverges, k, hentries k hk, hk, hcontest⟩

/-- The text of a source begins like one of `declared`, `constraint` and `alignment`. -/
theorem Source.head?_text (source : Source) :
    source.text.toList.head? ∈ [some 'd', some 'c', some 'a'] := by
  have happend : ∀ {s rest : String} {c : Char}, s.toList.head? = some c →
      (s ++ rest).toList.head? = some c := by
    intro s rest c h
    rw [String.toList_append, List.head?_append, h]
    rfl
  cases source with
  | declared => decide +kernel
  | published c =>
      have h : "constraint from ".toList.head? = some 'c' := by decide +kernel
      unfold text
      rw [happend h]
      decide
  | alignment platform =>
      have h : "alignment with platform ".toList.head? = some 'a' := by decide +kernel
      unfold text
      rw [happend h]
      decide

/-- A demand that is only remembered is a conflict of an edge, which is not reported. -/
theorem Request.outlived_over_outliving : ∃ G it b res k,
    Sample.outlived.resolveOver {} Sample.outliving = .converged G ∧
    (Run.ofRequest Sample.outlived {} Sample.outliving).Converges
      (Sample.outliving.provider (Sample.outlived.order {})) it b res ∧
    G = (Run.ofRequest Sample.outlived {} Sample.outliving).graphOf it b.graph res ∧
    k ∈ G.conflicts ∧ res.FromEdge (Sample.outlived.order {}) k ∧
    k.contest = (Sample.id "core", "org:base:1", "1") ∧
    (∀ r ∈ G.reports, r.contest ≠ k.contest) ∧
    G.root ≠ ⟨Sample.id "base", "1"⟩ ∧ G.versionOf? (Sample.id "base") = some "2" := by
  have hfound : ((Sample.outlived.resolveOver {} Sample.outliving).graph?.any fun G =>
      (∃ k ∈ G.conflicts, k.contest = (Sample.id "core", "org:base:1", "1")) ∧
      (∀ r ∈ G.reports, r.contest ≠ (Sample.id "core", "org:base:1", "1")) ∧
      G.root ≠ ⟨Sample.id "base", "1"⟩ ∧ G.versionOf? (Sample.id "base") = some "2") = true := by
    decide +kernel
  obtain ⟨G, hgraph, hcond⟩ := (Option.any_eq_true _ _).1 hfound
  obtain ⟨⟨k, hk, hcontest⟩, hreports, hroot, hversion⟩ := of_decide_eq_true hcond
  have hconverged := Outcome.eq_of_graph? hgraph
  obtain ⟨it, b, res, hconverges, rfl, -⟩ := Run.exists_converges hconverged
  obtain ⟨last, live, round, hreached, hsettles, hres⟩ := hconverges.exists_reached
  have hfrom : res.FromEdge (Sample.outlived.order {}) k := by
    have hk : k ∈ res.conflicts := hk
    rw [hres] at hk ⊢
    refine (hsettles.fromEdge_or_source hreached hk).resolve_right ?_
    rintro ⟨source, hsource⟩
    have hrequester : k.requester = "org:base:1" := congrArg (fun t => t.2.1) hcontest
    have hfront := Source.head?_text source
    rw [← hsource, hrequester] at hfront
    revert hfront
    decide +kernel
  refine ⟨_, it, b, res, k, hconverged, hconverges, rfl, hk, hfrom, hcontest, ?_, hroot, hversion⟩
  rw [hcontest]
  exact hreports

end Lockstep
