import Lockstep.Candidate.Builder
import Lockstep.Proofs.Region
import Mathlib.Data.List.Range

/-!
# The steps of the builder

What the operations of a candidate graph and of its builder do, one equation or
one reading law for each. An arrival at an edge is processed in two steps: the
exclusions of the target are taken note of and its versions gone through again
if they shrank (`revisit`), then the version that answers the edge is expanded
(`expandAnswer`). A level records its answers first (`recordAll`), and what all
levels preserve holds of the finished graph (`run_induction`).
-/

namespace Lockstep

theorem SortedMap.insert_eq_self {κ β : Type} [Ord κ] [Std.TransOrd κ] [Std.LawfulEqOrd κ]
    [DecidableEq κ] {m : SortedMap κ β} {k : κ} {v : β} (h : m.get? k = some v) :
    m.insert k v = m := by
  refine SortedMap.ext fun k' => ?_
  rw [SortedMap.get?_insert]
  by_cases hk : k' = k
  · rw [if_pos hk, hk, h]
  · rw [if_neg hk]

namespace CandidateGraph

variable {g : CandidateGraph}

/-! ## New edges -/

/-- The edge that a dependency becomes. -/
def newEdge (source : Coordinates) (id : EdgeId) (d : Dependency × Bool) : Edge :=
  { id, source, dependency := d.1, synthetic := d.2 }

theorem addEdges_eq (g : CandidateGraph) (source : Coordinates) (l : List (Dependency × Bool)) :
    g.addEdges source l =
      ({ g with
          edges := g.edges ++ (l.mapIdx fun i d => newEdge source (g.edges.size + i) d).toArray },
        List.range' g.edges.size l.length) := by
  induction l generalizing g with
  | nil => simp [addEdges]
  | cons d rest ih =>
      obtain ⟨dependency, synthetic⟩ := d
      unfold addEdges
      rw [ih]
      simp only [addEdge, Array.size_push, List.mapIdx_cons, Nat.add_zero, List.length_cons,
        List.range'_succ, newEdge, Nat.add_assoc, Nat.add_comm 1]
      rw [Array.push_eq_append, Array.append_assoc]
      simp

theorem edge?_addEdges_of_lt (source : Coordinates) (l : List (Dependency × Bool)) {e : EdgeId}
    (h : e < g.edges.size) : (g.addEdges source l).1.edge? e = g.edge? e := by
  rw [addEdges_eq]
  exact Array.getElem?_append_left h

theorem edge?_addEdges_add (source : Coordinates) (l : List (Dependency × Bool)) (i : Nat) :
    (g.addEdges source l).1.edge? (g.edges.size + i) =
      (l[i]?).map (newEdge source (g.edges.size + i)) := by
  rw [addEdges_eq]
  unfold edge?
  rw [Array.getElem?_append_right (Nat.le_add_right _ _), Nat.add_sub_cancel_left,
    List.getElem?_toArray, List.getElem?_mapIdx]

theorem lt_size_of_edge? {e : EdgeId} {edge : Edge} (h : g.edge? e = some edge) :
    e < g.edges.size := by
  obtain ⟨hlt, -⟩ := Array.getElem?_eq_some_iff.1 h
  exact hlt

/-! ## Reading after one operation -/

theorem edge?_setResolved (g : CandidateGraph) (e : EdgeId) (version : Option String)
    (e' : EdgeId) : (g.setResolved e version).edge? e' =
      if e' = e then (g.edge? e').map fun edge => { edge with resolved := version }
      else g.edge? e' := by
  unfold setResolved edge?
  rw [Array.getElem?_modify]
  by_cases h : e = e'
  · rw [if_pos h, if_pos h.symm]
  · rw [if_neg h, if_neg fun h' => h h'.symm]

/-- An edge is the one before, but for the version that answers it. -/
theorem exists_of_edge?_setResolved {e e' : EdgeId} {version : Option String} {edge : Edge}
    (h : (g.setResolved e version).edge? e' = some edge) :
    ∃ before resolved, g.edge? e' = some before ∧ edge = { before with resolved } := by
  rw [edge?_setResolved] at h
  split at h
  · obtain ⟨before, hbefore, rfl⟩ := Option.map_eq_some_iff.1 h
    exact ⟨before, version, hbefore, rfl⟩
  · exact ⟨edge, edge.resolved, h, rfl⟩

theorem node?_setOutgoing (g : CandidateGraph) (c : Coordinates) (out : List EdgeId)
    (c' : Coordinates) : (g.setOutgoing c out).node? c' =
      if c' = c then (g.node? c').map fun n => { n with outgoing := out } else g.node? c' :=
  SortedMap.get?_modify g.nodes c c' _

/-- The outcome that an answer settles a query with. -/
def outcomeOf (q : Query) : Answer → Except Unmatched String
  | .ok (some d) => .ok d.version
  | .ok none =>
    match q.requirement.version? with
    | some v => .ok v
    | none => .error ⟨q, .absent⟩
  | .error outage =>
    match q.requirement.version? with
    | some v => .ok v
    | none => .error ⟨q, .unavailable outage⟩

/-- What an answer says of the version that it comes to. -/
def findingOf : Answer → Finding
  | .ok (some d) => .found d
  | .ok none => .missing .absent
  | .error outage => .missing (.unavailable outage)

theorem record_eq (g : CandidateGraph) (q : Query) (answer : Answer) :
    g.record q answer =
      { (match outcomeOf q answer with
          | .ok v => g.addNode (q.target.atVersion v) (findingOf answer)
          | .error _ => g) with
        outcomes := g.outcomes.insert q (outcomeOf q answer) } := by
  rcases answer with outage | _ | d
  · unfold record outcomeOf
    cases q.requirement.version? <;> rfl
  · unfold record outcomeOf
    cases q.requirement.version? <;> rfl
  · rfl

/-- Recording an answer touches nodes and outcomes alone. -/
theorem exists_record_eq (g : CandidateGraph) (q : Query) (answer : Answer) :
    ∃ nodes, g.record q answer =
      { g with nodes, outcomes := g.outcomes.insert q (outcomeOf q answer) } := by
  rw [record_eq]
  cases outcomeOf q answer with
  | ok v => exact ⟨_, rfl⟩
  | error u => exact ⟨g.nodes, rfl⟩

@[simp] theorem root_record (g : CandidateGraph) (q : Query) (answer : Answer) :
    (g.record q answer).root = g.root := by
  obtain ⟨nodes, heq⟩ := exists_record_eq g q answer
  rw [heq]

@[simp] theorem rootEdges_record (g : CandidateGraph) (q : Query) (answer : Answer) :
    (g.record q answer).rootEdges = g.rootEdges := by
  obtain ⟨nodes, heq⟩ := exists_record_eq g q answer
  rw [heq]

@[simp] theorem edges_record (g : CandidateGraph) (q : Query) (answer : Answer) :
    (g.record q answer).edges = g.edges := by
  obtain ⟨nodes, heq⟩ := exists_record_eq g q answer
  rw [heq]

theorem edge?_record (g : CandidateGraph) (q : Query) (answer : Answer) (e : EdgeId) :
    (g.record q answer).edge? e = g.edge? e := by
  unfold edge?
  rw [edges_record]

theorem outcome?_record (g : CandidateGraph) (q : Query) (answer : Answer) (q' : Query) :
    (g.record q answer).outcome? q' =
      if q' = q then some (outcomeOf q answer) else g.outcome? q' := by
  rw [record_eq]
  exact SortedMap.get?_insert g.outcomes q q' _

theorem node?_addNode (g : CandidateGraph) (c : Coordinates) (f : Finding) (c' : Coordinates) :
    (g.addNode c f).node? c' =
      if c' = c then some ((g.node? c).getD { coordinates := c, finding := f }) else g.node? c' :=
  SortedMap.get?_insertNew g.nodes c c' _

theorem node?_record (g : CandidateGraph) (q : Query) (answer : Answer) (c : Coordinates) :
    (g.record q answer).node? c =
      if outcomeOf q answer = .ok c.version ∧ q.target = c.id then
        some ((g.node? c).getD { coordinates := c, finding := findingOf answer })
      else g.node? c := by
  rw [record_eq]
  cases h : outcomeOf q answer with
  | error u => rw [if_neg (by simp)]; rfl
  | ok v =>
      refine (node?_addNode g _ _ c).trans ?_
      by_cases hc : c = q.target.atVersion v
      · subst hc
        rw [if_pos rfl, if_pos ⟨rfl, rfl⟩]
      · rw [if_neg hc, if_neg]
        rintro ⟨hv, ht⟩
        refine hc ?_
        rw [Except.ok.inj hv, ht]
        rfl

theorem answer?_eq_some_iff {q : Query} {v : String} :
    g.answer? q = some v ↔ g.outcome? q = some (.ok v) := by
  unfold answer?
  split
  · next h => rw [h, Option.some.injEq, Option.some.injEq, Except.ok.injEq]
  · next h => exact ⟨nofun, fun h' => absurd h' (h v)⟩

/-! ## What is known of a version -/

/-- What is known of a version that has been recorded. -/
def finding? (g : CandidateGraph) (c : Coordinates) : Option Finding :=
  (g.node? c).map Node.finding

theorem finding?_eq_some_iff {c : Coordinates} {f : Finding} :
    g.finding? c = some f ↔ ∃ n, g.node? c = some n ∧ n.finding = f := by
  unfold finding?
  rw [Option.map_eq_some_iff]

theorem descriptor?_eq (g : CandidateGraph) (c : Coordinates) :
    g.descriptor? c = (g.finding? c).bind Finding.descriptor? := by
  unfold descriptor? finding?
  rw [Option.bind_map]
  rfl

theorem descriptor?_eq_some_iff {c : Coordinates} {d : Descriptor} :
    g.descriptor? c = some d ↔ g.finding? c = some (.found d) := by
  rw [descriptor?_eq, Option.bind_eq_some_iff]
  constructor
  · rintro ⟨f, hf, hfound⟩
    cases f with
    | missing m => cases hfound
    | found d' =>
        obtain rfl := Option.some.inj hfound
        exact hf
  · exact fun hf => ⟨.found d, hf, rfl⟩

theorem finding?_setOutgoing (g : CandidateGraph) (c : Coordinates) (out : List EdgeId)
    (c' : Coordinates) : (g.setOutgoing c out).finding? c' = g.finding? c' := by
  unfold finding?
  rw [node?_setOutgoing]
  split
  · rw [Option.map_map]
    rfl
  · rfl

theorem finding?_record (g : CandidateGraph) (q : Query) (answer : Answer) (c : Coordinates) :
    (g.record q answer).finding? c =
      if outcomeOf q answer = .ok c.version ∧ q.target = c.id then
        some ((g.finding? c).getD (findingOf answer))
      else g.finding? c := by
  unfold finding?
  rw [node?_record]
  split
  · cases g.node? c <;> rfl
  · rfl

/-- What is known of a version stays. -/
theorem finding?_record_of_finding? {q : Query} {answer : Answer} {c : Coordinates} {f : Finding}
    (h : g.finding? c = some f) : (g.record q answer).finding? c = some f := by
  rw [finding?_record, h]
  split <;> rfl

theorem outgoing_record (g : CandidateGraph) (q : Query) (answer : Answer) (c : Coordinates) :
    (g.record q answer).outgoing c = g.outgoing c := by
  unfold outgoing
  rw [node?_record]
  split
  · cases g.node? c <;> rfl
  · rfl

/-! ## The versions of a module -/

/-- The recorded versions of a module are its own. -/
def KeepsCoordinates (g : CandidateGraph) : Prop :=
  ∀ c n, g.node? c = some n → n.coordinates = c

theorem mem_versionsOf (hg : g.KeepsCoordinates) {id : ModuleId}
    {c : Coordinates} :
    c ∈ (g.versionsOf id).map Node.coordinates ↔ c.id = id ∧ ∃ n, g.node? c = some n := by
  unfold versionsOf
  rw [List.mem_map]
  constructor
  · rintro ⟨n, hn, rfl⟩
    obtain ⟨hvalue, hid⟩ := List.mem_filter.1 hn
    obtain ⟨c, hc⟩ := SortedMap.mem_values_iff.1 hvalue
    rw [hg c n hc]
    exact ⟨by rw [← hg c n hc]; exact eq_of_beq hid, n, hc⟩
  · rintro ⟨rfl, n, hn⟩
    refine ⟨n, List.mem_filter.2 ⟨SortedMap.mem_values_iff.2 ⟨c, hn⟩, ?_⟩, hg c n hn⟩
    rw [hg c n hn]
    exact beq_self_eq_true c.id

/-! ## The edges of one node -/

/-- The dependencies of a node, as its metadata has them. -/
def requestsOf (rules : PlatformRules) (g : CandidateGraph) (c : Coordinates) :
    List (Dependency × Bool) :=
  match g.descriptor? c with
  | none => []
  | some d => Builder.outgoingOf rules g.root c d

/-- The queries of the constraints that a node publishes. -/
def constraintsOf (g : CandidateGraph) (c : Coordinates) : List Query :=
  match g.descriptor? c with
  | none => []
  | some d => d.constraints.map fun k => ⟨k.target, k.requirement⟩

theorem requestsOf_of_none {rules : PlatformRules} {c : Coordinates} (h : g.descriptor? c = none) :
    requestsOf rules g c = [] := by
  unfold requestsOf
  rw [h]

theorem requestsOf_of_descriptor? {rules : PlatformRules} {c : Coordinates} {d : Descriptor}
    (h : g.descriptor? c = some d) :
    requestsOf rules g c = Builder.outgoingOf rules g.root c d := by
  unfold requestsOf
  rw [h]

theorem mem_requestsOf {rules : PlatformRules} {c : Coordinates} {r : Dependency × Bool} :
    r ∈ requestsOf rules g c ↔
      ∃ d, g.descriptor? c = some d ∧ r ∈ Builder.outgoingOf rules g.root c d := by
  unfold requestsOf
  cases g.descriptor? c <;> simp

theorem mem_constraintsOf {c : Coordinates} {q : Query} : q ∈ constraintsOf g c ↔
    ∃ d, g.descriptor? c = some d ∧ ∃ k ∈ d.constraints, q = ⟨k.target, k.requirement⟩ := by
  unfold constraintsOf
  cases g.descriptor? c <;> simp [eq_comm]

/-- The graph with the edges of a node that has metadata. -/
def withEdgesOf (rules : PlatformRules) (g : CandidateGraph) (c : Coordinates) : CandidateGraph :=
  match g.descriptor? c with
  | none => g
  | some _ =>
    let (graph, ids) := g.addEdges c (requestsOf rules g c)
    graph.setOutgoing c ids

theorem exists_withEdgesOf_eq (rules : PlatformRules) (g : CandidateGraph) (c : Coordinates) :
    ∃ nodes edges, withEdgesOf rules g c = { g with nodes, edges } := by
  unfold withEdgesOf
  cases g.descriptor? c with
  | none => exact ⟨g.nodes, g.edges, rfl⟩
  | some d =>
      rw [addEdges_eq]
      exact ⟨_, _, rfl⟩

@[simp] theorem root_withEdgesOf (rules : PlatformRules) (g : CandidateGraph) (c : Coordinates) :
    (withEdgesOf rules g c).root = g.root := by
  obtain ⟨nodes, edges, heq⟩ := exists_withEdgesOf_eq rules g c
  rw [heq]

@[simp] theorem rootEdges_withEdgesOf (rules : PlatformRules) (g : CandidateGraph)
    (c : Coordinates) : (withEdgesOf rules g c).rootEdges = g.rootEdges := by
  obtain ⟨nodes, edges, heq⟩ := exists_withEdgesOf_eq rules g c
  rw [heq]

@[simp] theorem outcome?_withEdgesOf (rules : PlatformRules) (g : CandidateGraph)
    (c : Coordinates) (q : Query) : (withEdgesOf rules g c).outcome? q = g.outcome? q := by
  obtain ⟨nodes, edges, heq⟩ := exists_withEdgesOf_eq rules g c
  rw [heq]
  rfl

@[simp] theorem answer?_withEdgesOf (rules : PlatformRules) (g : CandidateGraph)
    (c : Coordinates) (q : Query) : (withEdgesOf rules g c).answer? q = g.answer? q := by
  unfold answer?
  rw [outcome?_withEdgesOf]

theorem edge?_withEdgesOf (rules : PlatformRules) (g : CandidateGraph) (c : Coordinates)
    (e : EdgeId) : (withEdgesOf rules g c).edge? e =
      if e < g.edges.size then g.edge? e
      else ((requestsOf rules g c)[e - g.edges.size]?).map (newEdge c e) := by
  unfold withEdgesOf
  cases h : g.descriptor? c with
  | none =>
      dsimp only
      split
      · rfl
      · next hle =>
        rw [requestsOf_of_none h]
        exact Array.getElem?_eq_none (Nat.le_of_not_lt hle)
  | some d =>
      change (g.addEdges c (requestsOf rules g c)).1.edge? e = _
      split
      · next hlt => exact edge?_addEdges_of_lt c _ hlt
      · next hle =>
        obtain ⟨i, rfl⟩ := Nat.exists_eq_add_of_le (Nat.le_of_not_lt hle)
        rw [edge?_addEdges_add, Nat.add_sub_cancel_left]

theorem edge?_withEdgesOf_of_edge? {rules : PlatformRules} {c : Coordinates} {e : EdgeId}
    {edge : Edge} (h : g.edge? e = some edge) : (withEdgesOf rules g c).edge? e = some edge := by
  rw [edge?_withEdgesOf, if_pos (lt_size_of_edge? h), h]

/-- An edge that was there before is as it was. -/
theorem edge?_of_edge?_withEdgesOf {rules : PlatformRules} {c : Coordinates} {e : EdgeId}
    {before edge : Edge} (hbefore : g.edge? e = some before)
    (h : (withEdgesOf rules g c).edge? e = some edge) : g.edge? e = some edge := by
  rw [edge?_withEdgesOf_of_edge? hbefore] at h
  exact hbefore.trans h

/-- An edge was there before, or is one that has been added. -/
theorem edge?_or_newEdge_of_edge?_withEdgesOf {rules : PlatformRules} {c : Coordinates}
    {e : EdgeId} {edge : Edge} (h : (withEdgesOf rules g c).edge? e = some edge) :
    g.edge? e = some edge ∨ ∃ r ∈ requestsOf rules g c, edge = newEdge c e r := by
  rw [edge?_withEdgesOf] at h
  split at h
  · exact Or.inl h
  · obtain ⟨r, hr, rfl⟩ := Option.map_eq_some_iff.1 h
    exact Or.inr ⟨r, List.mem_of_getElem? hr, rfl⟩

theorem size_edges_withEdgesOf (rules : PlatformRules) (g : CandidateGraph) (c : Coordinates) :
    (withEdgesOf rules g c).edges.size = g.edges.size + (requestsOf rules g c).length := by
  unfold withEdgesOf
  cases h : g.descriptor? c with
  | none =>
      rw [requestsOf_of_none h]
      rfl
  | some d =>
      rw [addEdges_eq]
      simp [setOutgoing]

theorem finding?_withEdgesOf (rules : PlatformRules) (g : CandidateGraph) (c c' : Coordinates) :
    (withEdgesOf rules g c).finding? c' = g.finding? c' := by
  unfold withEdgesOf
  cases h : g.descriptor? c with
  | none => rfl
  | some d =>
      rw [addEdges_eq]
      exact finding?_setOutgoing _ _ _ _

theorem keepsCoordinates_withEdgesOf (rules : PlatformRules) (hg : g.KeepsCoordinates)
    (c : Coordinates) : (withEdgesOf rules g c).KeepsCoordinates := by
  unfold withEdgesOf
  cases h : g.descriptor? c with
  | none => exact hg
  | some d =>
      rw [addEdges_eq]
      intro c' n hn
      dsimp only at hn
      rw [node?_setOutgoing] at hn
      split at hn
      · obtain ⟨n', hn', rfl⟩ := Option.map_eq_some_iff.1 hn
        exact hg c' n' hn'
      · exact hg c' n hn

theorem outgoing_withEdgesOf (rules : PlatformRules) {g : CandidateGraph} {c : Coordinates}
    (h : g.outgoing c = []) (c' : Coordinates) : (withEdgesOf rules g c).outgoing c' =
      if c' = c then List.range' g.edges.size (requestsOf rules g c).length
      else g.outgoing c' := by
  unfold withEdgesOf
  cases hd : g.descriptor? c with
  | none =>
      dsimp only
      split
      · next hc => rw [hc, h, requestsOf_of_none hd]; rfl
      · rfl
  | some d =>
      obtain ⟨n, hn, -⟩ := Option.bind_eq_some_iff.1 hd
      rw [addEdges_eq]
      unfold outgoing
      dsimp only
      rw [node?_setOutgoing]
      split
      · next hc =>
        subst hc
        change ((Option.map _ (g.node? c')).map _).getD [] = _
        rw [hn]
        rfl
      · rfl

end CandidateGraph

namespace Builder

variable {rules : PlatformRules} {b : Builder}

/-! ## Arrivals -/

/-- The arrivals at the edges of a node that the given exclusions let through. -/
def arrivals (g : CandidateGraph) (set : Exclusions) (c : Coordinates) : List Arrival :=
  (Walk.onward g set c).map fun p => .edge p.1 p.2

theorem mem_arrivals {g : CandidateGraph} {set : Exclusions} {c : Coordinates} {a : Arrival} :
    a ∈ arrivals g set c ↔ ∃ e edge, e ∈ g.outgoing c ∧ g.edge? e = some edge ∧
      set.exclude edge.target = false ∧ a = .edge e (set.union edge.dependency.exclusions) := by
  unfold arrivals
  rw [List.mem_map]
  constructor
  · rintro ⟨⟨e, inherited⟩, hp, rfl⟩
    obtain ⟨edge, he, hedge, hex, rfl⟩ := Walk.mem_onward.1 hp
    exact ⟨e, edge, he, hedge, hex, rfl⟩
  · rintro ⟨e, edge, he, hedge, hex, rfl⟩
    exact ⟨(e, _), Walk.mem_onward.2 ⟨edge, he, hedge, hex, rfl⟩, rfl⟩

theorem probe_not_mem_arrivals {g : CandidateGraph} {set : Exclusions} {c : Coordinates}
    (q : Query) : .probe q ∉ arrivals g set c := by
  intro h
  obtain ⟨e, edge, -, -, -, hne⟩ := mem_arrivals.1 h
  cases hne

theorem queueOutgoing_eq {c : Coordinates} {set : Exclusions}
    (h : b.exclusions.get? c.id = some set) :
    b.queueOutgoing c = { b with queue := b.queue ++ arrivals b.graph set c } := by
  unfold queueOutgoing arrivals Walk.onward
  rw [h, List.map_filterMap]
  dsimp only
  congr 3
  funext e
  cases b.graph.edge? e with
  | none => rfl
  | some edge =>
      change (if _ then _ else _) = Option.map _ (if _ then _ else _)
      split <;> rfl

/-- The arrivals at the edges of several versions of one module. -/
theorem foldl_expand_eq (rules : PlatformRules) (id : ModuleId) (set : Exclusions)
    (l : List Coordinates) (hset : b.exclusions.get? id = some set)
    (hl : ∀ c ∈ l, c.id = id ∧ b.expanded.contains c = true) :
    l.foldl (expand rules) b = { b with queue := b.queue ++ l.flatMap (arrivals b.graph set) } := by
  induction l generalizing b with
  | nil => simp
  | cons c rest ih =>
      obtain ⟨hid, hc⟩ := hl c List.mem_cons_self
      have hexpand : expand rules b c = { b with queue := b.queue ++ arrivals b.graph set c } := by
        unfold expand
        rw [if_pos hc]
        exact queueOutgoing_eq (by rw [hid]; exact hset)
      rw [List.foldl_cons, hexpand, ih]
      · rw [List.flatMap_cons, List.append_assoc]
      · exact hset
      · exact fun c' hc' => hl c' (List.mem_cons_of_mem _ hc')

/-! ## New versions -/

theorem expandNew_of_mem {c : Coordinates} (h : c ∈ b.expanded) : b.expandNew rules c = b := by
  unfold expandNew
  rw [if_pos (SortedSet.contains_iff.2 h)]

theorem createEdges_eq (rules : PlatformRules) (b : Builder) (c : Coordinates) :
    createEdges rules b c =
      { b with
        graph := b.graph.withEdgesOf rules c
        constrained := b.constrained ++ b.graph.constraintsOf c } := by
  unfold createEdges CandidateGraph.withEdgesOf CandidateGraph.constraintsOf
    CandidateGraph.requestsOf
  cases b.graph.descriptor? c with
  | none => simp
  | some d => rfl

theorem expandNew_of_not_mem (rules : PlatformRules) {c : Coordinates} (h : c ∉ b.expanded) :
    b.expandNew rules c =
      Builder.queueOutgoing { b with
        graph := b.graph.withEdgesOf rules c
        expanded := b.expanded.insert c
        constrained := b.constrained ++ b.graph.constraintsOf c } c := by
  have hc : ¬b.expanded.contains c = true := fun hc => h (SortedSet.contains_iff.1 hc)
  unfold expandNew expand
  rw [if_neg hc, if_neg hc]
  dsimp only
  rw [createEdges_eq]

/-- Expanding a version changes the queue and what is told of it, and nothing else. -/
theorem exists_expandNew_eq (rules : PlatformRules) (b : Builder) {c : Coordinates}
    (h : c ∉ b.expanded) : ∃ queue, b.expandNew rules c =
      { b with
        graph := b.graph.withEdgesOf rules c
        expanded := b.expanded.insert c
        constrained := b.constrained ++ b.graph.constraintsOf c
        queue } := by
  rw [expandNew_of_not_mem rules h]
  unfold queueOutgoing
  dsimp only
  cases b.exclusions.get? c.id with
  | none => exact ⟨_, rfl⟩
  | some set => exact ⟨_, rfl⟩

theorem expandNew_eq {c : Coordinates} {set : Exclusions} (h : c ∉ b.expanded)
    (hset : b.exclusions.get? c.id = some set) :
    b.expandNew rules c =
      { b with
        graph := b.graph.withEdgesOf rules c
        expanded := b.expanded.insert c
        constrained := b.constrained ++ b.graph.constraintsOf c
        queue := b.queue ++ arrivals (b.graph.withEdgesOf rules c) set c } := by
  rw [expandNew_of_not_mem rules h]
  exact queueOutgoing_eq hset

/-! ## One arrival -/

theorem offer_eq (b : Builder) (id : ModuleId) (incoming : Exclusions) :
    b.offer id incoming =
      ({ b with
          exclusions := b.exclusions.insert id (.shared (b.exclusions.get? id) incoming) },
        decide (b.exclusions.get? id ≠ some (.shared (b.exclusions.get? id) incoming))) := by
  unfold offer Exclusions.shared
  cases h : b.exclusions.get? id with
  | none => simp
  | some current =>
      by_cases hsame : current.inter incoming = current
      · simp [hsame, SortedMap.insert_eq_self h]
      · have hsame' : ¬current = current.inter incoming := fun h' => hsame h'.symm
        simp [hsame, hsame']

/-- The versions of the target of an edge that are gone through again. -/
def again (b : Builder) (target : ModuleId) (incoming : Exclusions) : List Coordinates :=
  if b.exclusions.get? target ≠ some (.shared (b.exclusions.get? target) incoming) then
    ((b.graph.versionsOf target).map Node.coordinates).filter b.expanded.contains
  else []

/-- Takes note of one more way to the target of an edge. -/
def revisit (b : Builder) (e : EdgeId) (edge : Edge) (incoming : Exclusions) : Builder :=
  let set := .shared (b.exclusions.get? edge.target) incoming
  let graph := b.graph.setResolved e (b.graph.answer? edge.query)
  { b with
    graph
    exclusions := b.exclusions.insert edge.target set
    queue := b.queue ++ (b.again edge.target incoming).flatMap (arrivals graph set) }

/-- Expands the version that answers a query. -/
def expandAnswer (rules : PlatformRules) (b : Builder) (q : Query) : Builder :=
  match b.graph.answer? q with
  | some v => b.expandNew rules (q.target.atVersion v)
  | none => b

/-- Either the version that answers is expanded, or there was nothing to expand. -/
theorem expandAnswer_eq_or (rules : PlatformRules) (b : Builder) (q : Query) :
    (b.expandAnswer rules q = b ∧
      ∀ v, b.graph.answer? q = some v → q.target.atVersion v ∈ b.expanded) ∨
    ∃ v, b.graph.answer? q = some v ∧ q.target.atVersion v ∉ b.expanded ∧
      b.expandAnswer rules q = b.expandNew rules (q.target.atVersion v) := by
  unfold expandAnswer
  cases b.graph.answer? q with
  | none => exact Or.inl ⟨rfl, nofun⟩
  | some v =>
      by_cases hc : q.target.atVersion v ∈ b.expanded
      · exact Or.inl ⟨expandNew_of_mem hc, fun w hw => Option.some.inj hw ▸ hc⟩
      · exact Or.inr ⟨v, rfl, hc, rfl⟩

/-- Expanding the version that answers leaves alone what expanding a version does. -/
theorem exists_expandAnswer_eq (rules : PlatformRules) (b : Builder) (q : Query) :
    b.expandAnswer rules q = b ∨
    ∃ v, b.graph.answer? q = some v ∧ q.target.atVersion v ∉ b.expanded ∧
      ∃ queue, b.expandAnswer rules q = { b with
        graph := b.graph.withEdgesOf rules (q.target.atVersion v)
        expanded := b.expanded.insert (q.target.atVersion v)
        constrained := b.constrained ++ b.graph.constraintsOf (q.target.atVersion v)
        queue } := by
  rcases expandAnswer_eq_or rules b q with ⟨heq, -⟩ | ⟨v, hv, hnew, heq⟩
  · exact Or.inl heq
  · rw [heq]
    exact Or.inr ⟨v, hv, hnew, exists_expandNew_eq rules b hnew⟩

theorem exclusions_expandAnswer (rules : PlatformRules) (b : Builder) (q : Query) :
    (b.expandAnswer rules q).exclusions = b.exclusions := by
  rcases exists_expandAnswer_eq rules b q with heq | ⟨v, -, -, queue, heq⟩ <;> rw [heq]

theorem probed_expandAnswer (rules : PlatformRules) (b : Builder) (q : Query) :
    (b.expandAnswer rules q).probed = b.probed := by
  rcases exists_expandAnswer_eq rules b q with heq | ⟨v, -, -, queue, heq⟩ <;> rw [heq]

theorem outcome?_expandAnswer (rules : PlatformRules) (b : Builder) (q q' : Query) :
    (b.expandAnswer rules q).graph.outcome? q' = b.graph.outcome? q' := by
  rcases exists_expandAnswer_eq rules b q with heq | ⟨v, -, -, queue, heq⟩
  · rw [heq]
  · rw [heq]
    exact CandidateGraph.outcome?_withEdgesOf rules b.graph _ q'

theorem answer?_expandAnswer (rules : PlatformRules) (b : Builder) (q q' : Query) :
    (b.expandAnswer rules q).graph.answer? q' = b.graph.answer? q' := by
  unfold CandidateGraph.answer?
  rw [outcome?_expandAnswer]

theorem edge?_expandAnswer (rules : PlatformRules) (q : Query) (e : EdgeId) (edge : Edge)
    (h : b.graph.edge? e = some edge) : (b.expandAnswer rules q).graph.edge? e = some edge := by
  rcases exists_expandAnswer_eq rules b q with heq | ⟨v, -, -, queue, heq⟩
  · rw [heq]
    exact h
  · rw [heq]
    exact CandidateGraph.edge?_withEdgesOf_of_edge? h

theorem mem_expandAnswer {q : Query} {c : Coordinates} :
    c ∈ (b.expandAnswer rules q).expanded ↔
      c ∈ b.expanded ∨ q.target = c.id ∧ b.graph.answer? q = some c.version := by
  rcases expandAnswer_eq_or rules b q with ⟨heq, hold⟩ | ⟨v, hv, hnew, heq⟩
  · rw [heq]
    refine ⟨Or.inl, ?_⟩
    rintro (h | ⟨hid, hc⟩)
    · exact h
    · have hmem := hold c.version hc
      rw [hid] at hmem
      exact hmem
  · have hcoordinates : c = q.target.atVersion v ↔ q.target = c.id ∧ v = c.version := by
      constructor
      · rintro rfl
        exact ⟨rfl, rfl⟩
      · rintro ⟨hid, rfl⟩
        rw [hid]
        rfl
    obtain ⟨queue, heq'⟩ := exists_expandNew_eq rules b hnew
    rw [heq, heq', SortedSet.mem_insert, or_comm, hv, Option.some.injEq, hcoordinates]

theorem mem_again (hg : b.graph.KeepsCoordinates) {target : ModuleId} {incoming : Exclusions}
    {c : Coordinates} : c ∈ b.again target incoming ↔
      b.exclusions.get? target ≠ some (.shared (b.exclusions.get? target) incoming) ∧
        c.id = target ∧ (∃ n, b.graph.node? c = some n) ∧ c ∈ b.expanded := by
  unfold again
  split
  · next h =>
    rw [List.mem_filter, CandidateGraph.mem_versionsOf hg, SortedSet.contains_iff, and_assoc]
    exact (and_iff_right h).symm
  · next h => simp [h]

theorem process_edge (hg : b.graph.KeepsCoordinates) {e : EdgeId} {edge : Edge}
    (h : b.graph.edge? e = some edge) (incoming : Exclusions) :
    b.process rules (.edge e incoming) =
      (b.revisit e edge incoming).expandAnswer rules edge.query := by
  unfold process
  dsimp only
  rw [h]
  dsimp only
  rw [offer_eq]
  dsimp only
  have hfold := foldl_expand_eq rules edge.target
    (.shared (b.exclusions.get? edge.target) incoming)
    (b.again edge.target incoming) (b := { b with
      graph := b.graph.setResolved e (b.graph.answer? edge.query)
      exclusions := b.exclusions.insert edge.target
        (.shared (b.exclusions.get? edge.target) incoming) })
    (by rw [SortedMap.get?_insert, if_pos rfl])
    (fun c hc => ⟨((mem_again hg).1 hc).2.1, SortedSet.contains_iff.2 ((mem_again hg).1 hc).2.2.2⟩)
  unfold again at hfold
  simp only [decide_eq_true_eq]
  exact congrArg (fun b' : Builder => match b.graph.answer? edge.query with
    | some v => b'.expandNew rules (edge.target.atVersion v)
    | none => b') hfold

theorem process_probe (rules : PlatformRules) (b : Builder) (q : Query) :
    b.process rules (.probe q) = b.expandAnswer rules q := rfl

theorem process_edge_none {e : EdgeId} (h : b.graph.edge? e = none) (incoming : Exclusions) :
    b.process rules (.edge e incoming) = b := by
  unfold process
  dsimp only
  rw [h]

/-! ## One level -/

theorem foldl_process (rules : PlatformRules) {I : List Arrival → Builder → Prop}
    (hstep : ∀ a rest b, I (a :: rest) b → I rest (b.process rules a)) (todo : List Arrival)
    (h : I todo b) : I [] (todo.foldl (process rules) b) := by
  induction todo generalizing b with
  | nil => exact h
  | cons a rest ih => exact ih (hstep a rest b h)

/-- Queues the probe for a constraint, if it is due. -/
def probe (b : Builder) (q : Query) : Builder :=
  if b.exclusions.contains q.target && !b.probed.contains q then
    { b with probed := b.probed.insert q, queue := b.queue ++ [.probe q] }
  else b

theorem probes_eq_foldl (b : Builder) : b.probes = b.constrained.foldl probe b := rfl

theorem probe_eq (b : Builder) (q : Query) : b.probe q =
    if b.exclusions.contains q.target = true ∧ q ∉ b.probed then
      { b with probed := b.probed.insert q, queue := b.queue ++ [.probe q] }
    else b := by
  unfold probe
  refine if_congr ?_ rfl rfl
  rw [Bool.and_eq_true, Bool.not_eq_true', ← Bool.not_eq_true, SortedSet.contains_iff]

theorem foldl_probe_eq (qs : List Query) (b : Builder) : ∃ new : List Query,
    qs.foldl probe b = { b with
      probed := b.probed.insertAll new
      queue := b.queue ++ new.map .probe } ∧
    (∀ q ∈ new, q ∈ qs ∧ b.exclusions.contains q.target = true ∧ q ∉ b.probed) ∧
    ∀ q ∈ qs, b.exclusions.contains q.target = true → q ∈ b.probed ∨ q ∈ new := by
  induction qs generalizing b with
  | nil => exact ⟨[], by simp [SortedSet.insertAll], nofun, nofun⟩
  | cons q rest ih =>
      rw [List.foldl_cons, probe_eq]
      split
      · next hq =>
        obtain ⟨new, heq, hnew, hall⟩ :=
          ih { b with probed := b.probed.insert q, queue := b.queue ++ [.probe q] }
        refine ⟨q :: new, ?_, ?_, ?_⟩
        · rw [heq]
          simp [SortedSet.insertAll]
        · intro q' hq'
          rcases List.mem_cons.1 hq' with rfl | hq'
          · exact ⟨List.mem_cons_self, hq⟩
          · obtain ⟨hmem, hreached, hunprobed⟩ := hnew q' hq'
            exact ⟨List.mem_cons_of_mem _ hmem, hreached,
              fun hp => hunprobed (SortedSet.mem_insert.2 (Or.inr hp))⟩
        · intro q' hq' hreached
          rcases List.mem_cons.1 hq' with rfl | hq'
          · exact Or.inr List.mem_cons_self
          · rcases hall q' hq' hreached with hp | hp
            · rcases SortedSet.mem_insert.1 hp with rfl | hp
              · exact Or.inr List.mem_cons_self
              · exact Or.inl hp
            · exact Or.inr (List.mem_cons_of_mem _ hp)
      · next hq =>
        obtain ⟨new, heq, hnew, hall⟩ := ih b
        refine ⟨new, heq, ?_, ?_⟩
        · intro q' hq'
          obtain ⟨hmem, hrest⟩ := hnew q' hq'
          exact ⟨List.mem_cons_of_mem _ hmem, hrest⟩
        · intro q' hq' hreached
          rcases List.mem_cons.1 hq' with rfl | hq'
          · by_contra hnone
            exact hq ⟨hreached, fun hp => hnone (Or.inl hp)⟩
          · exact hall q' hq' hreached

/-- Probes are queued for the constraints on modules reached that have none yet. -/
theorem probes_eq (b : Builder) : ∃ new : List Query,
    b.probes = { b with
      probed := b.probed.insertAll new
      queue := b.queue ++ new.map .probe } ∧
    (∀ q ∈ new, q ∈ b.constrained ∧ b.exclusions.contains q.target = true ∧ q ∉ b.probed) ∧
    ∀ q ∈ b.constrained, b.exclusions.contains q.target = true → q ∈ b.probed ∨ q ∈ new :=
  foldl_probe_eq b.constrained b

theorem graph_probes (b : Builder) : b.probes.graph = b.graph := by
  obtain ⟨new, heq, -⟩ := probes_eq b
  rw [heq]

theorem expanded_probes (b : Builder) : b.probes.expanded = b.expanded := by
  obtain ⟨new, heq, -⟩ := probes_eq b
  rw [heq]

theorem exclusions_probes (b : Builder) : b.probes.exclusions = b.exclusions := by
  obtain ⟨new, heq, -⟩ := probes_eq b
  rw [heq]

/-- Records answers to several queries. -/
def recordAll (answers : Query → Answer) (qs : List Query) (b : Builder) : Builder :=
  qs.foldl (fun b q => b.record q (answers q)) b

/-- A level with the answers to what it asks for. -/
def levelWith (rules : PlatformRules) (answers : Query → Answer) (b : Builder) : Builder :=
  (b.recordAll answers b.wanted.toList).advance rules

theorem mem_wanted {q : Query} : q ∈ b.wanted ↔
    b.graph.outcome? q = none ∧ ∃ a ∈ b.queue, b.query? a = some q := by
  unfold wanted
  rw [SortedSet.mem_ofList, List.mem_filter, List.mem_filterMap, Bool.not_eq_true',
    ← Bool.not_eq_true, SortedMap.contains_iff, and_comm]
  refine and_congr_left' ?_
  change (¬∃ o, b.graph.outcome? q = some o) ↔ _
  cases b.graph.outcome? q <;> simp

theorem recordAll_cons (answers : Query → Answer) (q : Query) (rest : List Query) (b : Builder) :
    b.recordAll answers (q :: rest) = (b.record q (answers q)).recordAll answers rest := rfl

/-- Recording changes the graph only. -/
theorem exists_recordAll_eq (answers : Query → Answer) (qs : List Query) (b : Builder) :
    ∃ graph, b.recordAll answers qs = { b with graph } := by
  induction qs generalizing b with
  | nil => exact ⟨b.graph, rfl⟩
  | cons q rest ih =>
      obtain ⟨graph, heq⟩ := ih (b.record q (answers q))
      exact ⟨graph, heq⟩

/-- What recording one new answer preserves, recording new answers preserves. -/
theorem recordAll_induction (answers : Query → Answer) {P : Builder → Prop}
    {qs : List Query} (hnodup : qs.Nodup) (hnew : ∀ q ∈ qs, b.graph.outcome? q = none)
    (hstep : ∀ b q, q ∈ qs → b.graph.outcome? q = none → P b → P (b.record q (answers q)))
    (h : P b) : P (b.recordAll answers qs) := by
  induction qs generalizing b with
  | nil => exact h
  | cons q rest ih =>
      obtain ⟨hq, hrest⟩ := List.nodup_cons.1 hnodup
      rw [recordAll_cons]
      refine ih hrest ?_ (fun b q' hq' => hstep b q' (List.mem_cons_of_mem _ hq'))
        (hstep b q List.mem_cons_self (hnew q List.mem_cons_self) h)
      intro q' hq'
      have hne : q' ≠ q := by
        rintro rfl
        exact hq hq'
      change (b.graph.record q (answers q)).outcome? q' = none
      rw [CandidateGraph.outcome?_record, if_neg hne]
      exact hnew q' (List.mem_cons_of_mem _ hq')

theorem outcome?_recordAll (answers : Query → Answer) (qs : List Query) (b : Builder)
    (q : Query) : (b.recordAll answers qs).graph.outcome? q =
      if q ∈ qs then some (CandidateGraph.outcomeOf q (answers q)) else b.graph.outcome? q := by
  induction qs generalizing b with
  | nil => rfl
  | cons q' rest ih =>
      rw [recordAll_cons, ih]
      by_cases hrest : q ∈ rest
      · rw [if_pos hrest, if_pos (List.mem_cons_of_mem _ hrest)]
      · rw [if_neg hrest]
        refine (CandidateGraph.outcome?_record b.graph q' _ q).trans ?_
        by_cases hq : q = q'
        · subst hq
          rw [if_pos rfl, if_pos List.mem_cons_self]
        · rw [if_neg hq, if_neg fun h => (List.mem_cons.1 h).elim hq hrest]

theorem recordAll_queue (answers : Query → Answer) (qs : List Query) (b : Builder)
    (queue : List Arrival) : { b.recordAll answers qs with queue } =
      ({ b with queue } : Builder).recordAll answers qs := by
  induction qs generalizing b with
  | nil => rfl
  | cons q rest ih => exact ih (b.record q (answers q))

theorem levelWith_eq (rules : PlatformRules) (answers : Query → Answer) (b : Builder) :
    b.levelWith rules answers = (b.queue.foldl (process rules)
      (({ b with queue := [] } : Builder).recordAll answers b.wanted.toList)).probes := by
  unfold levelWith advance
  rw [recordAll_queue]
  obtain ⟨graph, heq⟩ := exists_recordAll_eq answers b.wanted.toList b
  have hqueue : (b.recordAll answers b.wanted.toList).queue = b.queue := by rw [heq]
  rw [hqueue]

theorem query?_record (b : Builder) (q : Query) (answer : Answer) (a : Arrival) :
    (b.record q answer).query? a = b.query? a := by
  cases a with
  | probe q' => rfl
  | edge e inherited =>
      change ((b.graph.record q answer).edge? e).map Edge.query = _
      rw [CandidateGraph.edge?_record]
      rfl

theorem recordAll_congr {f h : Query → Answer} {qs : List Query} (heq : ∀ q ∈ qs, f q = h q)
    (b : Builder) : b.recordAll f qs = b.recordAll h qs := by
  induction qs generalizing b with
  | nil => rfl
  | cons q rest ih =>
      unfold recordAll
      rw [List.foldl_cons, List.foldl_cons, heq q List.mem_cons_self]
      exact ih (fun q' hq' => heq q' (List.mem_cons_of_mem _ hq')) _

theorem lookUp_eq {σ : Type} (lookup : Lookup σ) {qs : List Query} (hnodup : qs.Nodup)
    (b : Builder) (s : σ) : ∃ answers s',
      (lookUp lookup qs b).run s = (b.recordAll answers qs, s') ∧
      ∀ q ∈ qs, ∃ s, answers q = ((lookup q).run s).1 := by
  induction qs generalizing b s with
  | nil => exact ⟨fun _ => .ok none, s, rfl, nofun⟩
  | cons q rest ih =>
      obtain ⟨hnew, hrest⟩ := List.nodup_cons.1 hnodup
      obtain ⟨answers, s', hrun, hanswers⟩ :=
        ih hrest (b.record q ((lookup q).run s).1) ((lookup q).run s).2
      let all : Query → Answer := fun q' => if q' = q then ((lookup q).run s).1 else answers q'
      have hself : all q = ((lookup q).run s).1 := if_pos rfl
      have hothers : ∀ q' ∈ rest, answers q' = all q' := by
        intro q' hq'
        have hne : q' ≠ q := by
          rintro rfl
          exact hnew hq'
        exact (if_neg hne).symm
      refine ⟨all, s', ?_, ?_⟩
      · change (lookUp lookup rest (b.record q ((lookup q).run s).1)).run ((lookup q).run s).2 = _
        rw [hrun, recordAll_congr hothers, ← hself]
        rfl
      · intro q' hq'
        rcases List.mem_cons.1 hq' with rfl | hq'
        · exact ⟨s, hself⟩
        · obtain ⟨s'', hs''⟩ := hanswers q' hq'
          exact ⟨s'', (hothers q' hq').symm.trans hs''⟩

/-! ## Runs -/

section

variable {σ : Type} (lookup : Lookup σ) (rules : PlatformRules) (levels : Nat) (s : σ)

/-- A level looks up what it wants and advances. -/
theorem level_eq (b : Builder) : (b.level lookup rules).run s =
    (((lookUp lookup b.wanted.toList b).run s).1.advance rules,
      ((lookUp lookup b.wanted.toList b).run s).2) :=
  rfl

theorem run_of_isEmpty (h : b.queue.isEmpty = true) :
    (b.run lookup rules levels).run s = (some b.graph, s) := by
  unfold run
  rw [if_pos h]
  rfl

theorem run_zero (h : b.queue.isEmpty = false) : (b.run lookup rules 0).run s = (none, s) := by
  rw [run, h]
  rfl

theorem run_succ (h : b.queue.isEmpty = false) : (b.run lookup rules (levels + 1)).run s =
    (((b.level lookup rules).run s).1.run lookup rules levels).run
      ((b.level lookup rules).run s).2 := by
  rw [run, h]
  rfl

end

/-- What every level preserves holds of the builder that has nothing left to do. The answers of
a level are those of the lookups in some state. -/
theorem run_induction {σ : Type} {lookup : Lookup σ} {P : Builder → Prop}
    (hlevel : ∀ b answers, (∀ q ∈ b.wanted, ∃ s, answers q = ((lookup q).run s).1) → P b →
      P (b.levelWith rules answers))
    {levels : Nat} {b : Builder} {s s' : σ} {g : CandidateGraph} (hb : P b)
    (hrun : (b.run lookup rules levels).run s = (some g, s')) :
    ∃ b', P b' ∧ b'.queue = [] ∧ b'.graph = g := by
  induction levels generalizing b s with
  | zero =>
      cases hempty : b.queue.isEmpty with
      | true =>
          rw [run_of_isEmpty _ _ _ _ hempty] at hrun
          exact ⟨b, hb, List.isEmpty_iff.1 hempty, Option.some.inj (Prod.mk.inj hrun).1⟩
      | false =>
          rw [run_zero _ _ _ hempty] at hrun
          cases hrun
  | succ levels ih =>
      cases hempty : b.queue.isEmpty with
      | true =>
          rw [run_of_isEmpty _ _ _ _ hempty] at hrun
          exact ⟨b, hb, List.isEmpty_iff.1 hempty, Option.some.inj (Prod.mk.inj hrun).1⟩
      | false =>
          obtain ⟨answers, s'', hlookUp, hanswers⟩ :=
            lookUp_eq lookup b.wanted.nodup_toList b s
          rw [run_succ _ _ _ _ hempty, level_eq, hlookUp] at hrun
          exact ih (hlevel b answers hanswers hb) hrun

end Builder

/-! ## Samples -/

namespace Sample

def id (name : String) : ModuleId :=
  ⟨"org", name⟩

def root : Coordinates :=
  ⟨id "app", "1"⟩

def dependency (name version : String) : Dependency :=
  { target := id name, requirement := .exact version }

def rangeOf (name lower upper : String) : Dependency :=
  { target := id name, requirement := .range ⟨some ⟨lower, true⟩, some ⟨upper, false⟩⟩ }

def describe (name version : String) (dependencies : List Dependency)
    (constraints : List DeclaredConstraint := []) : Descriptor :=
  { coordinates := ⟨id name, version⟩, dependencies, constraints }

/-- `base` leads to `auth` again. -/
def reopening : Catalog :=
  ⟨[describe "auth" "1" [dependency "core" "1"], describe "base" "1" [dependency "auth" "1"],
    describe "core" "1" []]⟩

/-- The edge to `auth` excludes what `auth` needs. -/
def reopened : List Dependency :=
  [{ dependency "auth" "1" with exclusions := .ofList [.ofModule (id "core")] },
    dependency "base" "1"]

end Sample

end Lockstep
