import Lockstep.Proofs.Building
import Lockstep.Proofs.Counting

/-!
# The edges of a candidate graph

Every edge is stored under its own number, leads away from the root, and stands
in the list of its source; the list of a version expanded holds its dependencies
in their order. Each step of the builder keeps these facts, so they hold of
every graph built (`Builder.arena_of_run`).
-/

namespace Lockstep

namespace CandidateGraph

variable {g g' : CandidateGraph} {rules : PlatformRules}

/-- Edges stay as they are but for the version that answers them. -/
def KeepsEdges (g g' : CandidateGraph) : Prop :=
  ∀ e edge, g.edge? e = some edge → ∃ version, g'.edge? e = some { edge with resolved := version }

theorem keepsEdges_of_eq (h : ∀ e edge, g.edge? e = some edge → g'.edge? e = some edge) :
    g.KeepsEdges g' :=
  fun e edge hedge => ⟨edge.resolved, h e edge hedge⟩

theorem keepsEdges_setResolved (g : CandidateGraph) (e : EdgeId) (version : Option String) :
    g.KeepsEdges (g.setResolved e version) := by
  intro e' edge hedge
  rw [edge?_setResolved, hedge]
  split
  · exact ⟨version, rfl⟩
  · exact ⟨edge.resolved, rfl⟩

/-- The edges with these numbers are the given dependencies of a source, in order. -/
structure Carries (g : CandidateGraph) (source : Coordinates) (ids : List EdgeId)
    (requests : List (Dependency × Bool)) : Prop where
  nodup : ids.Nodup
  edges : List.Forall₂ (fun e r => ∃ edge, g.edge? e = some edge ∧ edge.source = source ∧
    edge.dependency = r.1 ∧ edge.synthetic = r.2) ids requests

theorem Carries.mono {source : Coordinates} {ids : List EdgeId}
    {requests : List (Dependency × Bool)} (h : g.Carries source ids requests)
    (hkeeps : g.KeepsEdges g') : g'.Carries source ids requests := by
  refine ⟨h.nodup, h.edges.imp ?_⟩
  rintro e r ⟨edge, hedge, hsource, hdependency, hsynthetic⟩
  obtain ⟨version, hedge'⟩ := hkeeps e edge hedge
  exact ⟨_, hedge', hsource, hdependency, hsynthetic⟩

theorem Carries.exists_edge {source : Coordinates} {ids : List EdgeId}
    {requests : List (Dependency × Bool)} (h : g.Carries source ids requests) {e : EdgeId}
    (he : e ∈ ids) : ∃ edge, g.edge? e = some edge ∧ edge.source = source ∧
      (edge.dependency, edge.synthetic) ∈ requests := by
  obtain ⟨-, hedges⟩ := h
  induction hedges with
  | nil => cases he
  | cons hr _ ih =>
      rcases List.mem_cons.1 he with rfl | he
      · obtain ⟨edge, hedge, hsource, hdependency, hsynthetic⟩ := hr
        refine ⟨edge, hedge, hsource, ?_⟩
        rw [hdependency, hsynthetic]
        exact List.mem_cons_self
      · obtain ⟨edge, hedge, hsource, hmem⟩ := ih he
        exact ⟨edge, hedge, hsource, List.mem_cons_of_mem _ hmem⟩

theorem Carries.exists_mem {source : Coordinates} {ids : List EdgeId}
    {requests : List (Dependency × Bool)} (h : g.Carries source ids requests)
    {r : Dependency × Bool} (hr : r ∈ requests) : ∃ e ∈ ids, ∃ edge, g.edge? e = some edge ∧
      edge.source = source ∧ edge.dependency = r.1 ∧ edge.synthetic = r.2 := by
  obtain ⟨-, hedges⟩ := h
  induction hedges with
  | nil => cases hr
  | cons he _ ih =>
      rcases List.mem_cons.1 hr with rfl | hr
      · exact ⟨_, List.mem_cons_self, he⟩
      · obtain ⟨e, hmem, hedge⟩ := ih hr
        exact ⟨e, List.mem_cons_of_mem _ hmem, hedge⟩

/-- Edges added under consecutive numbers are the ones asked for. -/
theorem carries_range' {source : Coordinates} {requests : List (Dependency × Bool)} {n : Nat}
    (h : ∀ i, g.edge? (n + i) = (requests[i]?).map (newEdge source (n + i))) :
    g.Carries source (List.range' n requests.length) requests := by
  refine ⟨List.nodup_range', List.forall₂_iff_get.2 ⟨List.length_range', ?_⟩⟩
  intro i hi hi'
  refine ⟨newEdge source (n + i) requests[i], ?_, rfl, rfl, rfl⟩
  have hget : (List.range' n requests.length).get ⟨i, hi⟩ = n + i := by simp
  rw [hget, h i, List.getElem?_eq_getElem hi', Option.map_some]

/-! ## The invariant -/

/-- Edges by number, nodes by coordinates, and the edges of every version expanded. -/
structure Arena (rules : PlatformRules) (dependencies : List (Dependency × Bool))
    (g : CandidateGraph) (expanded : SortedSet Coordinates) : Prop where
  coordinates : g.KeepsCoordinates
  number : ∀ e edge, g.edge? e = some edge → edge.id = e
  target : ∀ e edge, g.edge? e = some edge → edge.target ≠ g.root.id
  root : g.Carries g.root g.rootEdges dependencies
  outgoing : ∀ c ∈ expanded, g.Carries c (g.outgoing c) (requestsOf rules g c)
  unexpanded : ∀ c, c ∉ expanded → g.outgoing c = []
  known : ∀ c ∈ expanded, ∃ f, g.finding? c = some f
  answered : ∀ q v, g.answer? q = some v → ∃ f, g.finding? (q.target.atVersion v) = some f
  size : g.edges.size =
    g.rootEdges.length + (expanded.toList.map fun c => (g.outgoing c).length).sum

theorem target_ne_root_of_mem_outgoingOf {root c : Coordinates} {d : Descriptor}
    {r : Dependency × Bool} (h : r ∈ Builder.outgoingOf rules root c d) :
    r.1.target ≠ root.id := by
  unfold Builder.outgoingOf at h
  rcases List.mem_append.1 h with h | h
  · obtain ⟨dep, hdep, rfl⟩ := List.mem_map.1 h
    have hcond := (List.mem_filter.1 hdep).2
    rw [Bool.and_eq_true] at hcond
    exact ne_of_apply_ne (· == root.id) (by simpa using hcond.2)
  · obtain ⟨p, hp, rfl⟩ := List.mem_map.1 h
    have hcond := (List.mem_filter.1 (SortedSet.mem_ofList.1 hp)).2
    rw [Bool.and_eq_true] at hcond
    simpa using hcond.2

theorem target_ne_root_of_mem_requestsOf {c : Coordinates} {r : Dependency × Bool}
    (h : r ∈ requestsOf rules g c) : r.1.target ≠ g.root.id := by
  obtain ⟨d, -, h⟩ := mem_requestsOf.1 h
  exact target_ne_root_of_mem_outgoingOf h

theorem requestsOf_congr {c : Coordinates} (hroot : g'.root = g.root)
    (hfinding : g'.finding? c = g.finding? c) : requestsOf rules g' c = requestsOf rules g c := by
  unfold requestsOf
  rw [descriptor?_eq, descriptor?_eq, hfinding, hroot]

namespace Arena

variable {dependencies : List (Dependency × Bool)} {expanded : SortedSet Coordinates}

theorem setResolved (h : Arena rules dependencies g expanded) (e : EdgeId)
    (version : Option String) : Arena rules dependencies (g.setResolved e version) expanded := by
  have hkeeps := keepsEdges_setResolved g e version
  constructor
  case coordinates => exact h.coordinates
  case number =>
    intro e' edge' hedge'
    obtain ⟨edge, resolved, hedge, rfl⟩ := exists_of_edge?_setResolved hedge'
    exact h.number e' edge hedge
  case target =>
    intro e' edge' hedge'
    obtain ⟨edge, resolved, hedge, rfl⟩ := exists_of_edge?_setResolved hedge'
    exact h.target e' edge hedge
  case root => exact h.root.mono hkeeps
  case outgoing => exact fun c hc => (h.outgoing c hc).mono hkeeps
  case unexpanded => exact h.unexpanded
  case known => exact h.known
  case answered => exact h.answered
  case size =>
    unfold CandidateGraph.setResolved
    dsimp only
    rw [Array.size_modify]
    exact h.size

theorem withEdgesOf (h : Arena rules dependencies g expanded) {c : Coordinates}
    (hnew : c ∉ expanded) (hknown : ∃ f, g.finding? c = some f) :
    Arena rules dependencies (withEdgesOf rules g c) (expanded.insert c) := by
  have hkeeps : g.KeepsEdges (CandidateGraph.withEdgesOf rules g c) :=
    keepsEdges_of_eq fun e edge hedge => edge?_withEdgesOf_of_edge? hedge
  have hnone := h.unexpanded c hnew
  have hrequests : ∀ c', requestsOf rules (CandidateGraph.withEdgesOf rules g c) c' =
      requestsOf rules g c' :=
    fun c' => requestsOf_congr (root_withEdgesOf rules g c) (finding?_withEdgesOf rules g c c')
  constructor
  case coordinates => exact keepsCoordinates_withEdgesOf rules h.coordinates c
  case number =>
    intro e edge h'
    rcases edge?_or_newEdge_of_edge?_withEdgesOf h' with hold | ⟨r, -, rfl⟩
    · exact h.number e edge hold
    · rfl
  case target =>
    intro e edge h'
    rw [root_withEdgesOf]
    rcases edge?_or_newEdge_of_edge?_withEdgesOf h' with hold | ⟨r, hr, rfl⟩
    · exact h.target e edge hold
    · exact target_ne_root_of_mem_requestsOf hr
  case root =>
    rw [root_withEdgesOf, rootEdges_withEdgesOf]
    exact h.root.mono hkeeps
  case outgoing =>
    intro c' hc'
    rw [outgoing_withEdgesOf rules hnone, hrequests]
    by_cases heq : c' = c
    · subst heq
      rw [if_pos rfl]
      refine carries_range' fun i => ?_
      rw [edge?_withEdgesOf, if_neg (Nat.not_lt.2 (Nat.le_add_right _ _)),
        Nat.add_sub_cancel_left]
    · rw [if_neg heq]
      rcases SortedSet.mem_insert.1 hc' with hc' | hc'
      · exact absurd hc' heq
      · exact (h.outgoing c' hc').mono hkeeps
  case unexpanded =>
    intro c' hc'
    have hne : c' ≠ c := fun heq => hc' (SortedSet.mem_insert.2 (Or.inl heq))
    rw [outgoing_withEdgesOf rules hnone, if_neg hne]
    exact h.unexpanded c' fun hmem => hc' (SortedSet.mem_insert.2 (Or.inr hmem))
  case known =>
    intro c' hc'
    rw [finding?_withEdgesOf]
    rcases SortedSet.mem_insert.1 hc' with rfl | hc'
    · exact hknown
    · exact h.known c' hc'
  case answered =>
    intro q v hv
    rw [finding?_withEdgesOf]
    rw [answer?_withEdgesOf] at hv
    exact h.answered q v hv
  case size =>
    have hrest : expanded.toList.map (fun c' =>
        ((CandidateGraph.withEdgesOf rules g c).outgoing c').length) =
          expanded.toList.map fun c' => (g.outgoing c').length := by
      refine List.map_congr_left fun c' hc' => ?_
      have hne : c' ≠ c := ne_of_mem_of_not_mem (s := expanded) hc' hnew
      rw [outgoing_withEdgesOf rules hnone, if_neg hne]
    rw [rootEdges_withEdgesOf, size_edges_withEdgesOf, h.size,
      ((SortedSet.insert_perm hnew).map _).sum_eq, List.map_cons, List.sum_cons, hrest,
      outgoing_withEdgesOf rules hnone, if_pos rfl, List.length_range']
    omega

theorem record (h : Arena rules dependencies g expanded) {q : Query} (answer : Answer)
    (hnew : g.outcome? q = none) : Arena rules dependencies (g.record q answer) expanded := by
  have hkeeps : g.KeepsEdges (g.record q answer) :=
    keepsEdges_of_eq fun e edge hedge => by rw [edge?_record, hedge]
  constructor
  case coordinates =>
    intro c n hn
    rw [node?_record] at hn
    split at hn
    · obtain rfl := Option.some.inj hn
      cases hnode : g.node? c with
      | none => rfl
      | some n => exact h.coordinates c n hnode
    · exact h.coordinates c n hn
  case number =>
    intro e edge hedge
    rw [edge?_record] at hedge
    exact h.number e edge hedge
  case target =>
    intro e edge hedge
    rw [edge?_record] at hedge
    rw [root_record]
    exact h.target e edge hedge
  case root =>
    rw [root_record, rootEdges_record]
    exact h.root.mono hkeeps
  case outgoing =>
    intro c hc
    obtain ⟨f, hf⟩ := h.known c hc
    rw [outgoing_record,
      requestsOf_congr (root_record g q answer) ((finding?_record_of_finding? hf).trans hf.symm)]
    exact (h.outgoing c hc).mono hkeeps
  case unexpanded =>
    intro c hc
    rw [outgoing_record]
    exact h.unexpanded c hc
  case known =>
    intro c hc
    obtain ⟨f, hf⟩ := h.known c hc
    exact ⟨f, finding?_record_of_finding? hf⟩
  case answered =>
    intro q' v hv
    rw [answer?_eq_some_iff, outcome?_record] at hv
    split at hv
    · next heq =>
      subst heq
      rw [finding?_record, if_pos ⟨Option.some.inj hv, rfl⟩]
      exact ⟨_, rfl⟩
    · obtain ⟨f, hf⟩ := h.answered q' v (answer?_eq_some_iff.2 hv)
      exact ⟨f, finding?_record_of_finding? hf⟩
  case size =>
    rw [edges_record, rootEdges_record, h.size]
    refine congrArg (_ + List.sum ·) (List.map_congr_left fun c _ => ?_)
    rw [outgoing_record]

theorem expanded_of_mem_outgoing (h : Arena rules dependencies g expanded) {c : Coordinates}
    {e : EdgeId} (he : e ∈ g.outgoing c) : c ∈ expanded := by
  by_contra hc
  rw [h.unexpanded c hc] at he
  cases he

theorem source_of_mem_outgoing (h : Arena rules dependencies g expanded) {c : Coordinates}
    {e : EdgeId} (he : e ∈ g.outgoing c) : ∃ edge, g.edge? e = some edge ∧ edge.source = c := by
  obtain ⟨edge, hedge, hsource, -⟩ := (h.outgoing c (h.expanded_of_mem_outgoing he)).exists_edge he
  exact ⟨edge, hedge, hsource⟩

theorem source_of_mem_rootEdges (h : Arena rules dependencies g expanded) {e : EdgeId}
    (he : e ∈ g.rootEdges) : ∃ edge, g.edge? e = some edge ∧ edge.source = g.root := by
  obtain ⟨edge, hedge, hsource, -⟩ := h.root.exists_edge he
  exact ⟨edge, hedge, hsource⟩

theorem nodup_outgoing (h : Arena rules dependencies g expanded) (c : Coordinates) :
    (g.outgoing c).Nodup := by
  by_cases hc : c ∈ expanded
  · exact (h.outgoing c hc).nodup
  · rw [h.unexpanded c hc]
    exact List.nodup_nil

end Arena

end CandidateGraph

namespace Builder

variable {rules : PlatformRules} {dependencies : List (Dependency × Bool)} {b : Builder}

theorem arena_expandAnswer (h : b.graph.Arena rules dependencies b.expanded) (q : Query) :
    (b.expandAnswer rules q).graph.Arena rules dependencies (b.expandAnswer rules q).expanded := by
  rcases exists_expandAnswer_eq rules b q with heq | ⟨v, hv, hnew, queue, heq⟩
  · rw [heq]
    exact h
  · rw [heq]
    exact h.withEdgesOf hnew (h.answered q v hv)

theorem arena_process (h : b.graph.Arena rules dependencies b.expanded) (a : Arrival) :
    (b.process rules a).graph.Arena rules dependencies (b.process rules a).expanded := by
  cases a with
  | probe q => exact arena_expandAnswer h q
  | edge e incoming =>
      cases hedge : b.graph.edge? e with
      | none =>
          rw [process_edge_none hedge]
          exact h
      | some edge =>
          rw [process_edge h.coordinates hedge]
          exact arena_expandAnswer (h.setResolved e _) edge.query

theorem arena_levelWith (answers : Query → Answer)
    (h : b.graph.Arena rules dependencies b.expanded) :
    (b.levelWith rules answers).graph.Arena rules dependencies
      (b.levelWith rules answers).expanded := by
  have hrecorded : (b.recordAll answers b.wanted.toList).graph.Arena rules dependencies
      (b.recordAll answers b.wanted.toList).expanded :=
    recordAll_induction answers (P := fun b => b.graph.Arena rules dependencies b.expanded)
      b.wanted.nodup_toList (fun q hq => (mem_wanted.1 hq).1)
      (fun b q _ hnew hb => hb.record (answers q) hnew) h
  have hprocessed := foldl_process rules
    (I := fun _ b => b.graph.Arena rules dependencies b.expanded)
    (b := { b.recordAll answers b.wanted.toList with queue := [] })
    (fun a _ _ hb => arena_process hb a) (b.recordAll answers b.wanted.toList).queue hrecorded
  unfold levelWith advance
  rw [graph_probes, expanded_probes]
  exact hprocessed

/-- The dependencies of the root that become edges. -/
def rootRequests (root : Coordinates) (dependencies : List Dependency) : List (Dependency × Bool) :=
  (dependencies.filter (·.target != root.id)).map (·, false)

theorem graph_start (root : Coordinates) (dependencies : List Dependency)
    (constraints : SortedSet Constraint) :
    (start root dependencies constraints).graph =
      { root
        rootEdges := List.range' 0 (rootRequests root dependencies).length
        edges := ((rootRequests root dependencies).mapIdx fun i d =>
          CandidateGraph.newEdge root i d).toArray } := by
  unfold start
  dsimp only
  rw [CandidateGraph.addEdges_eq]
  simp [rootRequests]

theorem edge?_start (root : Coordinates) (dependencies : List Dependency)
    (constraints : SortedSet Constraint) (e : EdgeId) :
    (start root dependencies constraints).graph.edge? e =
      ((rootRequests root dependencies)[e]?).map (CandidateGraph.newEdge root e) := by
  rw [graph_start]
  unfold CandidateGraph.edge?
  rw [List.getElem?_toArray, List.getElem?_mapIdx]

/-- The edges that a builder begins with are dependencies of the root on other modules. -/
theorem exists_of_edge?_start {root : Coordinates} {dependencies : List Dependency}
    {constraints : SortedSet Constraint} {e : EdgeId} {edge : Edge}
    (h : (start root dependencies constraints).graph.edge? e = some edge) :
    ∃ d ∈ dependencies, d.target ≠ root.id ∧ edge = CandidateGraph.newEdge root e (d, false) := by
  rw [edge?_start] at h
  obtain ⟨r, hr, rfl⟩ := Option.map_eq_some_iff.1 h
  obtain ⟨d, hd, rfl⟩ := List.mem_map.1 (List.mem_of_getElem? hr)
  obtain ⟨hd, hne⟩ := List.mem_filter.1 hd
  exact ⟨d, hd, by simpa using hne, rfl⟩

theorem mem_queue_start {root : Coordinates} {dependencies : List Dependency}
    {constraints : SortedSet Constraint} {a : Arrival} :
    a ∈ (start root dependencies constraints).queue ↔ ∃ e edge,
      (start root dependencies constraints).graph.edge? e = some edge ∧
        a = .edge e edge.dependency.exclusions := by
  have hqueue : (start root dependencies constraints).queue =
      ((List.range' 0 (rootRequests root dependencies).length).zip
        (dependencies.filter (·.target != root.id))).map fun (e, d) => .edge e d.exclusions := by
    unfold start
    dsimp only
    rw [CandidateGraph.addEdges_eq]
    simp [rootRequests]
  have hedge : ∀ e edge, (start root dependencies constraints).graph.edge? e = some edge ↔
      ∃ d, (dependencies.filter (·.target != root.id))[e]? = some d ∧
        CandidateGraph.newEdge root e (d, false) = edge := by
    intro e edge
    rw [edge?_start]
    unfold rootRequests
    rw [List.getElem?_map, Option.map_map, Option.map_eq_some_iff]
    rfl
  rw [hqueue, List.mem_map]
  constructor
  · rintro ⟨⟨e, d⟩, hmem, rfl⟩
    obtain ⟨i, hi⟩ := List.mem_iff_getElem?.1 hmem
    obtain ⟨hid, hd⟩ := List.getElem?_zip_eq_some.1 hi
    obtain ⟨hlt, hid⟩ := List.getElem?_eq_some_iff.1 hid
    have heq : i = e := by simpa using hid
    subst heq
    exact ⟨i, _, (hedge i _).2 ⟨d, hd, rfl⟩, rfl⟩
  · rintro ⟨e, edge, h, rfl⟩
    obtain ⟨d, hd, rfl⟩ := (hedge e edge).1 h
    refine ⟨(e, d), List.mem_iff_getElem?.2 ⟨e, List.getElem?_zip_eq_some.2 ⟨?_, hd⟩⟩, rfl⟩
    obtain ⟨hlt, -⟩ := List.getElem?_eq_some_iff.1 hd
    have hlength : (rootRequests root dependencies).length =
        (dependencies.filter (·.target != root.id)).length := List.length_map _
    rw [List.getElem?_range' (by omega)]
    simp

theorem arena_start (rules : PlatformRules) (root : Coordinates) (dependencies : List Dependency)
    (constraints : SortedSet Constraint) :
    (start root dependencies constraints).graph.Arena rules (rootRequests root dependencies)
      (start root dependencies constraints).expanded := by
  have hgraph := graph_start root dependencies constraints
  have hnodes : ∀ c, (start root dependencies constraints).graph.node? c = none := by
    intro c
    rw [hgraph]
    rfl
  constructor
  case coordinates =>
    intro c n hn
    rw [hnodes] at hn
    cases hn
  case number =>
    intro e edge hedge
    obtain ⟨d, -, -, rfl⟩ := exists_of_edge?_start hedge
    rfl
  case target =>
    intro e edge hedge
    obtain ⟨d, -, hne, rfl⟩ := exists_of_edge?_start hedge
    rw [hgraph]
    exact hne
  case root =>
    have hcarries : (start root dependencies constraints).graph.Carries root
        (List.range' 0 (rootRequests root dependencies).length)
        (rootRequests root dependencies) := by
      refine CandidateGraph.carries_range' fun i => ?_
      rw [edge?_start, Nat.zero_add]
    have hroot : (start root dependencies constraints).graph.root = root := by rw [hgraph]
    have hrootEdges : (start root dependencies constraints).graph.rootEdges =
        List.range' 0 (rootRequests root dependencies).length := by rw [hgraph]
    rw [hroot, hrootEdges]
    exact hcarries
  case outgoing => exact fun c hc => absurd hc (SortedSet.not_mem_empty c)
  case unexpanded =>
    intro c _
    unfold CandidateGraph.outgoing
    rw [hnodes]
    rfl
  case known => exact fun c hc => absurd hc (SortedSet.not_mem_empty c)
  case answered =>
    intro q v hv
    rw [CandidateGraph.answer?_eq_some_iff, hgraph] at hv
    cases hv
  case size =>
    rw [hgraph]
    change ((rootRequests root dependencies).mapIdx _).toArray.size =
      (List.range' 0 (rootRequests root dependencies).length).length + 0
    rw [List.size_toArray, List.length_mapIdx, List.length_range', Nat.add_zero]

/-- The graph that a builder comes to, with the versions that it has expanded. -/
theorem arena_of_run {σ : Type} {lookup : Lookup σ} {root : Coordinates}
    {dependencies : List Dependency} {constraints : SortedSet Constraint} {levels : Nat}
    {s s' : σ} {g : CandidateGraph}
    (hrun : ((start root dependencies constraints).run lookup rules levels).run s = (some g, s')) :
    ∃ expanded, g.Arena rules (rootRequests root dependencies) expanded := by
  obtain ⟨b, hb, -, rfl⟩ := run_induction
    (P := fun b => b.graph.Arena rules (rootRequests root dependencies) b.expanded)
    (fun _ answers _ => arena_levelWith answers) (arena_start rules root dependencies constraints)
    hrun
  exact ⟨b.expanded, hb⟩

end Builder

end Lockstep
