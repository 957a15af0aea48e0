import Lockstep.Proofs.Arena

/-!
# What a builder has reached

Whatever a builder still owes is in its queue: an edge that the exclusions of
its source let through is awaited or has been followed, a version on record is
expanded or about to be, and a constraint on a module that has been reached has
been looked up or is awaited (`Owed`). A finished builder awaits nothing, so
its region is covered (`Coverage`, `coverage_of_run`).
-/

namespace Lockstep

/-! ## Edges followed -/

/-- An edge has been looked up, knows its answer, and its target has arrived. -/
structure CandidateGraph.Followed (g : CandidateGraph) (R : Region) (edge : Edge)
    (inherited : Exclusions) : Prop where
  asked : ∃ o, g.outcome? edge.query = some o
  resolved : edge.resolved = g.answer? edge.query
  arrives : R.Arrives edge.target (g.answer? edge.query) inherited

namespace CandidateGraph

variable {g g' : CandidateGraph} {R S : Region}

/-- Outcomes on record stay. -/
def KeepsOutcomes (g g' : CandidateGraph) : Prop :=
  ∀ q o, g.outcome? q = some o → g'.outcome? q = some o

theorem KeepsOutcomes.answer? (h : g.KeepsOutcomes g') {q : Query} {o : Except Unmatched String}
    (ho : g.outcome? q = some o) : g'.answer? q = g.answer? q := by
  unfold CandidateGraph.answer?
  rw [h q o ho, ho]

theorem keepsOutcomes_withEdgesOf (rules : PlatformRules) (g : CandidateGraph) (c : Coordinates) :
    g.KeepsOutcomes (g.withEdgesOf rules c) :=
  fun q _ ho => (outcome?_withEdgesOf rules g c q).trans ho

theorem keepsOutcomes_record {q : Query} (hnew : g.outcome? q = none) (answer : Answer) :
    g.KeepsOutcomes (g.record q answer) := by
  intro q' o ho
  rw [outcome?_record, if_neg, ho]
  rintro rfl
  rw [hnew] at ho
  cases ho

theorem Followed.mono {edge : Edge} {inherited : Exclusions} (h : g.Followed R edge inherited)
    (hkeeps : g.KeepsOutcomes g') (hle : R.Le S) : g'.Followed S edge inherited := by
  obtain ⟨o, ho⟩ := h.asked
  have hanswer := hkeeps.answer? ho
  refine ⟨⟨o, hkeeps _ o ho⟩, ?_, ?_⟩
  · rw [hanswer]
    exact h.resolved
  · rw [hanswer]
    exact h.arrives.mono hle

end CandidateGraph

namespace Builder

variable {rules : PlatformRules} {dependencies : List (Dependency × Bool)} {b : Builder}
  {todo rest : List Arrival} {declared : List Query}

/-- What a builder has reached so far. -/
def region (b : Builder) : Region :=
  ⟨(· ∈ b.expanded), b.exclusions.get?⟩

/-- An arrival is still to come, in this level or in the next. -/
def Awaits (todo : List Arrival) (b : Builder) (a : Arrival) : Prop :=
  a ∈ todo ∨ a ∈ b.queue

/-- A query has been made, and the version that answers it is expanded. -/
structure Looked (b : Builder) (q : Query) : Prop where
  asked : ∃ o, b.graph.outcome? q = some o
  expanded : ∀ v, b.graph.answer? q = some v → q.target.atVersion v ∈ b.expanded

/-- What is not done yet is awaited. -/
structure Owed (declared : List Query) (todo : List Arrival) (b : Builder) : Prop where
  reached : ∀ c ∈ b.expanded, ∃ set, b.exclusions.get? c.id = some set
  root : ∀ e ∈ b.graph.rootEdges, ∀ edge, b.graph.edge? e = some edge →
    Awaits todo b (.edge e edge.dependency.exclusions) ∨
      b.graph.Followed b.region edge edge.dependency.exclusions
  onward : ∀ c ∈ b.expanded, ∀ set, b.exclusions.get? c.id = some set →
    ∀ e ∈ b.graph.outgoing c, ∀ edge, b.graph.edge? e = some edge →
      set.exclude edge.target = false →
        Awaits todo b (.edge e (set.union edge.dependency.exclusions)) ∨
          b.graph.Followed b.region edge (set.union edge.dependency.exclusions)
  noted : ∀ q, q ∈ declared ∨ (∃ c ∈ b.expanded, q ∈ b.graph.constraintsOf c) →
    q ∈ b.constrained
  probed : ∀ q ∈ b.probed, Awaits todo b (.probe q) ∨ b.Looked q
  recorded : ∀ c f, b.graph.finding? c = some f → c ∈ b.expanded ∨
    ∃ a ∈ todo, ∃ q, b.query? a = some q ∧ q.target = c.id ∧ b.graph.answer? q = some c.version
  queued : ∀ a, Awaits todo b a → ∃ q, b.query? a = some q
  probes : ∀ q, Awaits todo b (.probe q) → ∃ set, b.exclusions.get? q.target = some set

/-- The lookups of this level have been made. -/
def Asked (todo : List Arrival) (b : Builder) : Prop :=
  ∀ a ∈ todo, ∀ q, b.query? a = some q → ∃ o, b.graph.outcome? q = some o

/-! ## What is awaited -/

/-- What is awaited once more has been queued was awaited before, or is new. -/
theorem awaits_append_iff {b' : Builder} {new : List Arrival} (h : b'.queue = b.queue ++ new)
    {a : Arrival} : Awaits todo b' a ↔ Awaits todo b a ∨ a ∈ new := by
  unfold Awaits
  rw [h, List.mem_append, or_assoc]

/-- A level begins with all that awaits the builder. -/
theorem awaits_begin_iff {a : Arrival} :
    Awaits b.queue { b with queue := [] } a ↔ Awaits [] b a :=
  or_comm

theorem awaits_revisit_iff {e : EdgeId} {edge : Edge} {incoming : Exclusions} {a : Arrival} :
    Awaits todo (b.revisit e edge incoming) a ↔ Awaits todo b a ∨
      ∃ c ∈ b.again edge.target incoming, a ∈ arrivals (b.revisit e edge incoming).graph
        (.shared (b.exclusions.get? edge.target) incoming) c := by
  rw [awaits_append_iff rfl, List.mem_flatMap]
  rfl

theorem awaits_probe_of_revisit {e : EdgeId} {edge : Edge} {incoming : Exclusions} {q : Query}
    (h : Awaits todo (b.revisit e edge incoming) (.probe q)) : Awaits todo b (.probe q) := by
  rcases awaits_revisit_iff.1 h with h | ⟨c, -, h⟩
  · exact h
  · exact absurd h (probe_not_mem_arrivals q)

theorem exists_query?_of_mem_arrivals {set : Exclusions} {c : Coordinates} {a : Arrival}
    (h : a ∈ arrivals b.graph set c) : ∃ q, b.query? a = some q := by
  obtain ⟨e, edge, -, hedge, -, rfl⟩ := mem_arrivals.1 h
  exact ⟨edge.query, Option.map_eq_some_iff.2 ⟨edge, hedge, rfl⟩⟩

/-- The edge that is arrived at next is there. -/
theorem Owed.exists_edge {e : EdgeId} {inherited : Exclusions}
    (h : Owed declared (.edge e inherited :: rest) b) : ∃ edge, b.graph.edge? e = some edge := by
  obtain ⟨q, hq⟩ := h.queued (.edge e inherited) (Or.inl List.mem_cons_self)
  obtain ⟨edge, hedge, -⟩ := Option.map_eq_some_iff.1 hq
  exact ⟨edge, hedge⟩

/-- The lookups of the arrivals that are left have been made. -/
theorem Asked.drop {a : Arrival} {b' : Builder} (hasked : Asked (a :: rest) b)
    (h : Owed declared (a :: rest) b) (hquery : ∀ a q, b.query? a = some q → b'.query? a = some q)
    (houtcome : ∀ q, b'.graph.outcome? q = b.graph.outcome? q) : Asked rest b' := by
  intro a' ha' q hq
  have hmem := List.mem_cons_of_mem a ha'
  obtain ⟨q', hq'⟩ := h.queued a' (Or.inl hmem)
  obtain rfl := Option.some.inj ((hquery a' q' hq').symm.trans hq)
  rw [houtcome]
  exact hasked a' hmem q' hq'

/-! ## An arrival at an edge -/

theorem get?_exclusions_revisit (b : Builder) (e : EdgeId) (edge : Edge) (incoming : Exclusions)
    (id : ModuleId) : (b.revisit e edge incoming).exclusions.get? id =
      if id = edge.target then some (.shared (b.exclusions.get? edge.target) incoming)
      else b.exclusions.get? id :=
  SortedMap.get?_insert _ _ _ _

theorem get?_exclusions_revisit_target (b : Builder) (e : EdgeId) (edge : Edge)
    (incoming : Exclusions) : (b.revisit e edge incoming).exclusions.get? edge.target =
      some (.shared (b.exclusions.get? edge.target) incoming) := by
  rw [get?_exclusions_revisit, if_pos rfl]

theorem region_le_revisit (b : Builder) (e : EdgeId) (edge : Edge) (incoming : Exclusions) :
    b.region.Le (b.revisit e edge incoming).region := by
  refine ⟨fun _ h => h, ?_⟩
  intro id set hset
  change ∃ shared, (b.revisit e edge incoming).exclusions.get? id = some shared ∧ _
  rw [get?_exclusions_revisit]
  by_cases hid : id = edge.target
  · subst hid
    exact ⟨_, if_pos rfl, Exclusions.shared_subset_before hset incoming⟩
  · exact ⟨set, by rw [if_neg hid]; exact hset, SortedSet.Subset.refl set⟩

/-- An arrival leads to nothing outside of a region where it has arrived itself. -/
theorem region_revisit_le {R : Region} {edge : Edge} {version : Option String}
    {incoming : Exclusions} (h : b.region.Le R)
    (harrives : R.Arrives edge.target version incoming) (e : EdgeId) :
    (b.revisit e edge incoming).region.Le R := by
  obtain ⟨least, hleast, hsub, -⟩ := harrives
  refine ⟨h.nodes, fun id set hset => ?_⟩
  change (b.revisit e edge incoming).exclusions.get? id = some set at hset
  rw [get?_exclusions_revisit] at hset
  by_cases hid : id = edge.target
  · rw [if_pos hid] at hset
    obtain rfl := Option.some.inj hset
    subst hid
    exact ⟨least, hleast, h.subset_shared hleast hsub⟩
  · rw [if_neg hid] at hset
    exact h.exclusions id set hset

/-- A version that is not gone through again has the exclusions that it had. -/
theorem get?_exclusions_of_not_mem_again (harena : b.graph.Arena rules dependencies b.expanded)
    {c : Coordinates} (hc : c ∈ b.expanded) {e : EdgeId} {edge : Edge} {incoming set : Exclusions}
    (hagain : c ∉ b.again edge.target incoming)
    (hset : (b.revisit e edge incoming).exclusions.get? c.id = some set) :
    b.exclusions.get? c.id = some set := by
  rw [get?_exclusions_revisit] at hset
  by_cases hid : c.id = edge.target
  · rw [if_pos hid] at hset
    rw [hid]
    by_contra hne
    obtain ⟨f, hf⟩ := harena.known c hc
    obtain ⟨n, hn, -⟩ := CandidateGraph.finding?_eq_some_iff.1 hf
    refine hagain ((mem_again harena.coordinates).2 ⟨fun heq => hne ?_, hid, ⟨n, hn⟩, hc⟩)
    rw [heq, hset]
  · rw [if_neg hid] at hset
    exact hset

theorem mem_queue_revisit {e : EdgeId} {edge : Edge} {incoming : Exclusions} {a : Arrival}
    (h : a ∈ b.queue) : a ∈ (b.revisit e edge incoming).queue :=
  List.mem_append_left _ h

theorem query?_revisit (b : Builder) (e : EdgeId) (edge : Edge) (incoming : Exclusions)
    (a : Arrival) : (b.revisit e edge incoming).query? a = b.query? a := by
  cases a with
  | probe q => rfl
  | edge e' inherited =>
      change Option.map Edge.query ((b.graph.setResolved e _).edge? e') = _
      rw [CandidateGraph.edge?_setResolved]
      split
      · rw [Option.map_map]
        rfl
      · rfl

/-- An edge is the one that has just arrived, with its answer, or one from before. -/
theorem eq_or_edge?_of_edge?_revisit {e e' : EdgeId} {edge edge' : Edge} {incoming : Exclusions}
    (hedge : b.graph.edge? e = some edge)
    (h : (b.revisit e edge incoming).graph.edge? e' = some edge') :
    e' = e ∧ edge' = { edge with resolved := b.graph.answer? edge.query } ∨
      b.graph.edge? e' = some edge' := by
  change (b.graph.setResolved e _).edge? e' = some edge' at h
  rw [CandidateGraph.edge?_setResolved] at h
  split at h
  · next heq =>
    rw [heq, hedge] at h
    exact Or.inl ⟨heq, (Option.some.inj h).symm⟩
  · exact Or.inr h

/-- What is awaited or has been followed still is after the arrival at an edge. -/
theorem followed_revisit {e e' : EdgeId} {edge edge' : Edge} {incoming inherited : Exclusions}
    (hedge' : (b.revisit e edge incoming).graph.edge? e' = some edge')
    (hedge : b.graph.edge? e = some edge)
    (h : ∀ before, b.graph.edge? e' = some before → before.dependency = edge'.dependency →
      Awaits todo b (.edge e' inherited) ∨ b.graph.Followed b.region before inherited) :
    Awaits todo (b.revisit e edge incoming) (.edge e' inherited) ∨
      (b.revisit e edge incoming).graph.Followed (b.revisit e edge incoming).region edge'
        inherited := by
  have hle := region_le_revisit b e edge incoming
  rcases eq_or_edge?_of_edge?_revisit hedge hedge' with ⟨rfl, rfl⟩ | hold
  · refine (h edge hedge rfl).imp (fun ha => awaits_revisit_iff.2 (Or.inl ha)) fun hfollowed => ?_
    exact ⟨hfollowed.asked, rfl, hfollowed.arrives.mono hle⟩
  · exact (h edge' hold rfl).imp (fun ha => awaits_revisit_iff.2 (Or.inl ha))
      fun hfollowed => hfollowed.mono (fun _ _ ho => ho) hle

theorem owed_revisit (harena : b.graph.Arena rules dependencies b.expanded)
    (h : Owed declared todo b) {e : EdgeId} {edge : Edge} (hedge : b.graph.edge? e = some edge)
    (incoming : Exclusions) : Owed declared todo (b.revisit e edge incoming) := by
  have hreached : ∀ id, (∃ set, b.exclusions.get? id = some set) →
      ∃ set, (b.revisit e edge incoming).exclusions.get? id = some set := by
    rintro id ⟨set, hset⟩
    obtain ⟨shared, hshared, -⟩ := (region_le_revisit b e edge incoming).exclusions id set hset
    exact ⟨shared, hshared⟩
  constructor
  case reached => exact fun c hc => hreached c.id (h.reached c hc)
  case root =>
    intro e' he' edge' hedge'
    refine followed_revisit hedge' hedge fun before hbefore hdependency => ?_
    rw [← hdependency]
    exact h.root e' he' before hbefore
  case onward =>
    intro c hc set hset e' he' edge' hedge' hex
    by_cases hagain : c ∈ b.again edge.target incoming
    · -- The edges of a version that is gone through again have just been queued.
      left
      rw [get?_exclusions_revisit, if_pos ((mem_again harena.coordinates).1 hagain).2.1] at hset
      obtain rfl := Option.some.inj hset
      exact awaits_revisit_iff.2
        (Or.inr ⟨c, hagain, mem_arrivals.2 ⟨e', edge', he', hedge', hex, rfl⟩⟩)
    · refine followed_revisit hedge' hedge fun before hbefore hdependency => ?_
      have hold := get?_exclusions_of_not_mem_again harena hc hagain hset
      have htarget : before.target = edge'.target := congrArg Dependency.target hdependency
      rw [← hdependency]
      exact h.onward c hc set hold e' he' before hbefore (by rw [htarget]; exact hex)
  case noted => exact h.noted
  case probed =>
    intro q hq
    exact (h.probed q hq).imp (fun ha => awaits_revisit_iff.2 (Or.inl ha))
      fun hlooked => ⟨hlooked.asked, hlooked.expanded⟩
  case recorded =>
    intro c f hf
    rcases h.recorded c f hf with hc | ⟨a, ha, q, hq, hrest⟩
    · exact Or.inl hc
    · exact Or.inr ⟨a, ha, q, (query?_revisit b e edge incoming a).trans hq, hrest⟩
  case queued =>
    intro a ha
    rcases awaits_revisit_iff.1 ha with ha | ⟨c, -, ha⟩
    · rw [query?_revisit]
      exact h.queued a ha
    · exact exists_query?_of_mem_arrivals ha
  case probes => exact fun q hq => hreached q.target (h.probes q (awaits_probe_of_revisit hq))

/-! ## The version that answers -/

theorem query?_mono {b b' : Builder}
    (h : ∀ e edge, b.graph.edge? e = some edge → b'.graph.edge? e = some edge) {a : Arrival}
    {q : Query} (hq : b.query? a = some q) : b'.query? a = some q := by
  cases a with
  | probe q' => exact hq
  | edge e inherited =>
      obtain ⟨edge, hedge, hquery⟩ := Option.map_eq_some_iff.1 hq
      exact Option.map_eq_some_iff.2 ⟨edge, h e edge hedge, hquery⟩

theorem constraintsOf_congr {g g' : CandidateGraph} {c : Coordinates}
    (h : g'.finding? c = g.finding? c) : g'.constraintsOf c = g.constraintsOf c := by
  unfold CandidateGraph.constraintsOf
  rw [CandidateGraph.descriptor?_eq, CandidateGraph.descriptor?_eq, h]

theorem owed_expandNew (harena : b.graph.Arena rules dependencies b.expanded)
    (h : Owed declared todo b) {c : Coordinates}
    (hreached : ∃ set, b.exclusions.get? c.id = some set)
    (hnew : c ∉ b.expanded) : Owed declared todo (b.expandNew rules c) := by
  obtain ⟨set, hset⟩ := hreached
  rw [expandNew_eq hnew hset]
  have hedges : ∀ e edge, b.graph.edge? e = some edge →
      (b.graph.withEdgesOf rules c).edge? e = some edge :=
    fun e edge => CandidateGraph.edge?_withEdgesOf_of_edge?
  have hkeeps := CandidateGraph.keepsOutcomes_withEdgesOf rules b.graph c
  have hle : b.region.Le ⟨(· ∈ b.expanded.insert c), b.exclusions.get?⟩ :=
    ⟨fun c' hc' => SortedSet.mem_insert.2 (Or.inr hc'),
      fun id s hs => ⟨s, hs, SortedSet.Subset.refl s⟩⟩
  constructor
  case reached =>
    intro c' hc'
    rcases SortedSet.mem_insert.1 hc' with rfl | hc'
    · exact ⟨set, hset⟩
    · exact h.reached c' hc'
  case root =>
    intro e he edge hedge
    change e ∈ (b.graph.withEdgesOf rules c).rootEdges at he
    rw [CandidateGraph.rootEdges_withEdgesOf] at he
    obtain ⟨before, hbefore, -⟩ := harena.root.exists_edge he
    have hold := CandidateGraph.edge?_of_edge?_withEdgesOf hbefore hedge
    exact (h.root e he edge hold).imp (fun ha => (awaits_append_iff rfl).2 (Or.inl ha))
      fun hfollowed => hfollowed.mono hkeeps hle
  case onward =>
    intro c' hc' set' hset' e he edge hedge hex
    by_cases heq : c' = c
    · subst heq
      change b.exclusions.get? c'.id = some set' at hset'
      rw [hset] at hset'
      obtain rfl := Option.some.inj hset'
      exact Or.inl ((awaits_append_iff rfl).2
        (Or.inr (mem_arrivals.2 ⟨e, edge, he, hedge, hex, rfl⟩)))
    · have hc : c' ∈ b.expanded := (SortedSet.mem_insert.1 hc').resolve_left heq
      change e ∈ (b.graph.withEdgesOf rules c).outgoing c' at he
      rw [CandidateGraph.outgoing_withEdgesOf rules (harena.unexpanded c hnew), if_neg heq] at he
      obtain ⟨before, hbefore, -⟩ := (harena.outgoing c' hc).exists_edge he
      have hold := CandidateGraph.edge?_of_edge?_withEdgesOf hbefore hedge
      exact (h.onward c' hc set' hset' e he edge hold hex).imp
        (fun ha => (awaits_append_iff rfl).2 (Or.inl ha))
        fun hfollowed => hfollowed.mono hkeeps hle
  case noted =>
    rintro q (hq | ⟨c', hc', hq⟩)
    · exact List.mem_append_left _ (h.noted q (Or.inl hq))
    · rw [constraintsOf_congr (CandidateGraph.finding?_withEdgesOf rules b.graph c c')] at hq
      rcases SortedSet.mem_insert.1 hc' with rfl | hc'
      · exact List.mem_append_right _ hq
      · exact List.mem_append_left _ (h.noted q (Or.inr ⟨c', hc', hq⟩))
  case probed =>
    intro q hq
    refine (h.probed q hq).imp (fun ha => (awaits_append_iff rfl).2 (Or.inl ha)) fun hlooked => ?_
    obtain ⟨o, ho⟩ := hlooked.asked
    refine ⟨⟨o, hkeeps q o ho⟩, fun v hv => SortedSet.mem_insert.2 (Or.inr ?_)⟩
    exact hlooked.expanded v ((CandidateGraph.answer?_withEdgesOf rules b.graph c q) ▸ hv)
  case recorded =>
    intro c' f hf
    change (b.graph.withEdgesOf rules c).finding? c' = some f at hf
    rw [CandidateGraph.finding?_withEdgesOf] at hf
    rcases h.recorded c' f hf with hc' | ⟨a, ha, q, hq, hid, hanswer⟩
    · exact Or.inl (SortedSet.mem_insert.2 (Or.inr hc'))
    · exact Or.inr ⟨a, ha, q, query?_mono hedges hq, hid,
        (CandidateGraph.answer?_withEdgesOf rules b.graph c q).trans hanswer⟩
  case queued =>
    intro a ha
    rcases (awaits_append_iff rfl).1 ha with ha | ha
    · obtain ⟨q, hq⟩ := h.queued a ha
      exact ⟨q, query?_mono hedges hq⟩
    · exact exists_query?_of_mem_arrivals ha
  case probes =>
    intro q hq
    exact h.probes q (((awaits_append_iff rfl).1 hq).resolve_right (probe_not_mem_arrivals q))

theorem owed_expandAnswer (harena : b.graph.Arena rules dependencies b.expanded)
    (h : Owed declared todo b) {q : Query}
    (hreached : ∃ set, b.exclusions.get? q.target = some set) :
    Owed declared todo (b.expandAnswer rules q) := by
  rcases expandAnswer_eq_or rules b q with ⟨heq, -⟩ | ⟨v, -, hnew, heq⟩
  · rw [heq]
    exact h
  · rw [heq]
    exact owed_expandNew harena h hreached hnew

theorem looked_expandAnswer (rules : PlatformRules) {q : Query} {o : Except Unmatched String}
    (ho : b.graph.outcome? q = some o) : (b.expandAnswer rules q).Looked q := by
  refine ⟨⟨o, (outcome?_expandAnswer rules b q q).trans ho⟩, fun v hv => ?_⟩
  rw [answer?_expandAnswer] at hv
  exact mem_expandAnswer.2 (Or.inr ⟨rfl, hv⟩)

/-! ## One arrival -/

theorem Owed.drop {a : Arrival} (h : Owed declared (a :: rest) b)
    (hfollowed : ∀ e inherited, a = .edge e inherited → ∀ edge, b.graph.edge? e = some edge →
      b.graph.Followed b.region edge inherited)
    (hlooked : ∀ q, b.query? a = some q → b.Looked q) : Owed declared rest b := by
  have hedge : ∀ e inherited edge, b.graph.edge? e = some edge →
      (Awaits (a :: rest) b (.edge e inherited) ∨ b.graph.Followed b.region edge inherited) →
      (Awaits rest b (.edge e inherited) ∨ b.graph.Followed b.region edge inherited) := by
    rintro e inherited edge hedge ((hmem | hmem) | hdone)
    · rcases List.mem_cons.1 hmem with heq | hmem
      · exact Or.inr (hfollowed e inherited heq.symm edge hedge)
      · exact Or.inl (Or.inl hmem)
    · exact Or.inl (Or.inr hmem)
    · exact Or.inr hdone
  constructor
  case reached => exact h.reached
  case root => exact fun e he edge hedge' => hedge _ _ _ hedge' (h.root e he edge hedge')
  case onward =>
    intro c hc set hset e he edge hedge' hex
    exact hedge _ _ _ hedge' (h.onward c hc set hset e he edge hedge' hex)
  case noted => exact h.noted
  case probed =>
    intro q hq
    rcases h.probed q hq with (hmem | hmem) | hdone
    · rcases List.mem_cons.1 hmem with heq | hmem
      · exact Or.inr (hlooked q (heq ▸ rfl))
      · exact Or.inl (Or.inl hmem)
    · exact Or.inl (Or.inr hmem)
    · exact Or.inr hdone
  case recorded =>
    intro c f hf
    rcases h.recorded c f hf with hc | ⟨a', ha', q, hq, hid, hanswer⟩
    · exact Or.inl hc
    · rcases List.mem_cons.1 ha' with rfl | ha'
      · left
        have hc := (hlooked q hq).expanded c.version hanswer
        rw [hid] at hc
        exact hc
      · exact Or.inr ⟨a', ha', q, hq, hid, hanswer⟩
  case queued => exact fun a' ha' => h.queued a' (ha'.imp_left (List.mem_cons_of_mem _))
  case probes => exact fun q hq => h.probes q (hq.imp_left (List.mem_cons_of_mem _))

theorem owed_process (harena : b.graph.Arena rules dependencies b.expanded) {a : Arrival}
    (h : Owed declared (a :: rest) b) (hasked : Asked (a :: rest) b) :
    Owed declared rest (b.process rules a) ∧ Asked rest (b.process rules a) := by
  obtain ⟨q, hq⟩ := h.queued a (Or.inl List.mem_cons_self)
  obtain ⟨o, ho⟩ := hasked a List.mem_cons_self q hq
  cases a with
  | probe q' =>
      obtain rfl : q' = q := Option.some.inj hq
      rw [process_probe]
      have howed := owed_expandAnswer harena h (h.probes q' (Or.inl List.mem_cons_self))
      refine ⟨howed.drop (fun _ _ hne => nomatch hne) ?_, ?_⟩
      · intro q hq
        obtain rfl : q' = q := Option.some.inj hq
        exact looked_expandAnswer rules ho
      · exact hasked.drop h (fun _ _ => query?_mono (edge?_expandAnswer rules q'))
          (outcome?_expandAnswer rules b q')
  | edge e incoming =>
      obtain ⟨edge, hedge, rfl⟩ := Option.map_eq_some_iff.1 hq
      rw [process_edge harena.coordinates hedge]
      have hrevisit := owed_revisit harena h hedge incoming
      have harena' : (b.revisit e edge incoming).graph.Arena rules dependencies
          (b.revisit e edge incoming).expanded := harena.setResolved e _
      have hshared := get?_exclusions_revisit_target b e edge incoming
      have howed := owed_expandAnswer harena' hrevisit (q := edge.query) ⟨_, hshared⟩
      have hlooked := looked_expandAnswer rules (b := b.revisit e edge incoming) ho
      have hedge' : ((b.revisit e edge incoming).expandAnswer rules edge.query).graph.edge? e =
          some { edge with resolved := b.graph.answer? edge.query } := by
        refine edge?_expandAnswer rules edge.query e _ ?_
        refine (CandidateGraph.edge?_setResolved b.graph e _ e).trans ?_
        rw [if_pos rfl, hedge]
        rfl
      refine ⟨howed.drop ?_ ?_, ?_⟩
      · rintro e' inherited heq edge' hedge''
        obtain ⟨rfl, rfl⟩ := Arrival.edge.inj heq
        rw [hedge'] at hedge''
        obtain rfl := Option.some.inj hedge''
        refine ⟨hlooked.asked, ?_, .shared (b.exclusions.get? edge.target) incoming, ?_,
          Exclusions.shared_subset_inherited _ _, hlooked.expanded⟩
        · exact (answer?_expandAnswer rules (b.revisit e edge incoming) edge.query edge.query).symm
        · change ((b.revisit e edge incoming).expandAnswer rules edge.query).exclusions.get?
            edge.target = _
          rw [exclusions_expandAnswer]
          exact hshared
      · intro q hq
        obtain ⟨edge', hedge'', rfl⟩ := Option.map_eq_some_iff.1 hq
        rw [hedge'] at hedge''
        obtain rfl := Option.some.inj hedge''
        exact hlooked
      · refine hasked.drop h (fun a q hq => ?_)
          (outcome?_expandAnswer rules (b.revisit e edge incoming) edge.query)
        exact query?_mono (edge?_expandAnswer rules edge.query)
          ((query?_revisit b e edge incoming a).trans hq)

/-! ## One level -/

theorem owed_record (harena : b.graph.Arena rules dependencies b.expanded)
    (h : Owed declared todo b) {q : Query} (hq : ∃ a ∈ todo, b.query? a = some q)
    (hnew : b.graph.outcome? q = none) (answer : Answer) :
    Owed declared todo (b.record q answer) := by
  have hkeeps := CandidateGraph.keepsOutcomes_record hnew answer
  have hquery := query?_record b q answer
  have hfollowed : ∀ {a edge inherited}, Awaits todo b a ∨
      b.graph.Followed b.region edge inherited → Awaits todo (b.record q answer) a ∨
        (b.graph.record q answer).Followed (b.record q answer).region edge inherited :=
    fun hdone => hdone.imp_right fun hf => hf.mono hkeeps (Region.le_refl _)
  constructor
  case reached => exact h.reached
  case root =>
    intro e he edge hedge
    change (b.graph.record q answer).edge? e = some edge at hedge
    change e ∈ (b.graph.record q answer).rootEdges at he
    rw [CandidateGraph.edge?_record] at hedge
    rw [CandidateGraph.rootEdges_record] at he
    exact hfollowed (h.root e he edge hedge)
  case onward =>
    intro c hc set hset e he edge hedge hex
    change (b.graph.record q answer).edge? e = some edge at hedge
    change e ∈ (b.graph.record q answer).outgoing c at he
    rw [CandidateGraph.edge?_record] at hedge
    rw [CandidateGraph.outgoing_record] at he
    exact hfollowed (h.onward c hc set hset e he edge hedge hex)
  case noted =>
    rintro q' (hq' | ⟨c, hc, hq'⟩)
    · exact h.noted q' (Or.inl hq')
    · obtain ⟨f, hf⟩ := harena.known c hc
      change q' ∈ (b.graph.record q answer).constraintsOf c at hq'
      rw [constraintsOf_congr
        ((CandidateGraph.finding?_record_of_finding? hf).trans hf.symm)] at hq'
      exact h.noted q' (Or.inr ⟨c, hc, hq'⟩)
  case probed =>
    intro q' hq'
    refine (h.probed q' hq').imp_right fun hlooked => ?_
    obtain ⟨o, ho⟩ := hlooked.asked
    refine ⟨⟨o, hkeeps q' o ho⟩, fun v hv => hlooked.expanded v ?_⟩
    rw [← hkeeps.answer? ho]
    exact hv
  case recorded =>
    intro c f hf
    change (b.graph.record q answer).finding? c = some f at hf
    rw [CandidateGraph.finding?_record] at hf
    split at hf
    · next hcond =>
      obtain ⟨a, ha, hqa⟩ := hq
      refine Or.inr ⟨a, ha, q, (hquery a).trans hqa, hcond.2, ?_⟩
      rw [CandidateGraph.answer?_eq_some_iff, ← hcond.1]
      exact (CandidateGraph.outcome?_record b.graph q answer q).trans (if_pos rfl)
    · rcases h.recorded c f hf with hc | ⟨a, ha, q', hqa, hid, hanswer⟩
      · exact Or.inl hc
      · refine Or.inr ⟨a, ha, q', (hquery a).trans hqa, hid, ?_⟩
        exact (hkeeps.answer? (CandidateGraph.answer?_eq_some_iff.1 hanswer)).trans hanswer
  case queued =>
    intro a ha
    rw [hquery]
    exact h.queued a ha
  case probes => exact h.probes

/-- All constraints on modules reached have their probes. -/
def Probed (b : Builder) : Prop :=
  ∀ q ∈ b.constrained, ∀ set, b.exclusions.get? q.target = some set → q ∈ b.probed

/-- Between two levels, everything owed is in the queue. -/
structure Tidy (rules : PlatformRules) (dependencies : List (Dependency × Bool))
    (declared : List Query) (b : Builder) : Prop where
  arena : b.graph.Arena rules dependencies b.expanded
  owed : Owed declared [] b
  probed : b.Probed

theorem owed_probes (h : Owed declared [] b) :
    Owed declared [] b.probes ∧ b.probes.Probed := by
  obtain ⟨new, heq, hnew, hall⟩ := probes_eq b
  rw [heq]
  have hawaits : ∀ {a}, Awaits [] b a → Awaits []
      { b with probed := b.probed.insertAll new, queue := b.queue ++ new.map .probe } a :=
    fun ha => (awaits_append_iff rfl).2 (Or.inl ha)
  constructor
  · constructor
    case reached => exact h.reached
    case root => exact fun e he edge hedge => (h.root e he edge hedge).imp_left hawaits
    case onward =>
      exact fun c hc set hset e he edge hedge hex =>
        (h.onward c hc set hset e he edge hedge hex).imp_left hawaits
    case noted => exact h.noted
    case probed =>
      intro q hq
      rcases SortedSet.mem_insertAll.1 hq with hq | hq
      · exact Or.inl (Or.inr (List.mem_append_right _ (List.mem_map.2 ⟨q, hq, rfl⟩)))
      · exact (h.probed q hq).imp hawaits fun hlooked => ⟨hlooked.asked, hlooked.expanded⟩
    case recorded =>
      intro c f hf
      rcases h.recorded c f hf with hc | ⟨a, ha, -⟩
      · exact Or.inl hc
      · cases ha
    case queued =>
      intro a ha
      rcases (awaits_append_iff rfl).1 ha with ha | ha
      · exact h.queued a ha
      · obtain ⟨q, -, rfl⟩ := List.mem_map.1 ha
        exact ⟨q, rfl⟩
    case probes =>
      intro q hq
      rcases (awaits_append_iff rfl).1 hq with hq | hq
      · exact h.probes q hq
      · obtain ⟨q', hq', heq⟩ := List.mem_map.1 hq
        obtain rfl := Arrival.probe.inj heq
        exact SortedMap.contains_iff.1 (hnew q' hq').2.1
  · intro q hq set hset
    exact SortedSet.mem_insertAll.2
      ((hall q hq (SortedMap.contains_iff.2 ⟨set, hset⟩)).symm)

/-- At the beginning of a level its arrivals are all to be taken. -/
theorem owed_begin (h : Owed declared [] b) : Owed declared b.queue { b with queue := [] } := by
  constructor
  case reached => exact h.reached
  case root => exact fun e he edge hedge => (h.root e he edge hedge).imp_left awaits_begin_iff.2
  case onward =>
    exact fun c hc set hset e he edge hedge hex =>
      (h.onward c hc set hset e he edge hedge hex).imp_left awaits_begin_iff.2
  case noted => exact h.noted
  case probed =>
    exact fun q hq => (h.probed q hq).imp awaits_begin_iff.2
      fun hlooked => ⟨hlooked.asked, hlooked.expanded⟩
  case recorded =>
    intro c f hf
    rcases h.recorded c f hf with hc | ⟨a, ha, -⟩
    · exact Or.inl hc
    · cases ha
  case queued => exact fun a ha => h.queued a (awaits_begin_iff.1 ha)
  case probes => exact fun q hq => h.probes q (awaits_begin_iff.1 hq)

/-- What recording, processing and probing preserve on a tidy builder, a level preserves; and the
builder is tidy again. -/
theorem levelWith_induction (answers : Query → Answer) {Q : List Arrival → Builder → Prop}
    (hrecord : ∀ b' q, (∃ a ∈ b.queue, b'.query? a = some q) → q ∈ b.wanted → Q b.queue b' →
      Q b.queue (b'.record q (answers q)))
    (hprocess : ∀ a rest b', b'.graph.Arena rules dependencies b'.expanded →
      Owed declared (a :: rest) b' → Asked (a :: rest) b' → Q (a :: rest) b' →
        Q rest (b'.process rules a))
    (hprobes : ∀ b', Q [] b' → Q [] b'.probes) (h : Tidy rules dependencies declared b)
    (hstart : Q b.queue { b with queue := [] }) :
    Tidy rules dependencies declared (b.levelWith rules answers) ∧
      Q [] (b.levelWith rules answers) := by
  obtain ⟨harena, howed, hquery, hrecorded⟩ := recordAll_induction answers
    (b := { b with queue := [] })
    (P := fun b' => b'.graph.Arena rules dependencies b'.expanded ∧ Owed declared b.queue b' ∧
      (∀ a, b'.query? a = b.query? a) ∧ Q b.queue b')
    b.wanted.nodup_toList (fun q hq => (mem_wanted.1 hq).1)
    (fun b' q hq hnew ⟨harena, howed, hquery, hQ⟩ => by
      obtain ⟨-, a, ha, hqa⟩ := mem_wanted.1 hq
      have hmem : ∃ a ∈ b.queue, b'.query? a = some q := ⟨a, ha, (hquery a).trans hqa⟩
      exact ⟨harena.record (answers q) hnew, owed_record harena howed hmem hnew (answers q),
        fun a' => (query?_record b' q (answers q) a').trans (hquery a'), hrecord b' q hmem hq hQ⟩)
    ⟨h.arena, owed_begin h.owed, fun a => by cases a <;> rfl, hstart⟩
  have hasked : Asked b.queue (({ b with queue := [] } : Builder).recordAll answers
      b.wanted.toList) := by
    intro a ha q hq
    rw [hquery] at hq
    rw [outcome?_recordAll]
    by_cases hwanted : q ∈ b.wanted.toList
    · rw [if_pos hwanted]
      exact ⟨_, rfl⟩
    · rw [if_neg hwanted]
      by_contra hnone
      refine hwanted (mem_wanted.2 ⟨?_, a, ha, hq⟩)
      exact Option.eq_none_iff_forall_not_mem.2 fun o ho => hnone ⟨o, ho⟩
  obtain ⟨harena', howed', -, hQ⟩ := foldl_process rules
    (I := fun todo b => b.graph.Arena rules dependencies b.expanded ∧ Owed declared todo b ∧
      Asked todo b ∧ Q todo b)
    (fun a rest b' ⟨harena, howed, hasked, hQ⟩ => by
      obtain ⟨howed', hasked'⟩ := owed_process harena howed hasked
      exact ⟨arena_process harena a, howed', hasked', hprocess a rest b' harena howed hasked hQ⟩)
    b.queue ⟨harena, howed, hasked, hrecorded⟩
  rw [levelWith_eq]
  obtain ⟨hdone, hprobed⟩ := owed_probes howed'
  refine ⟨⟨?_, hdone, hprobed⟩, hprobes _ hQ⟩
  rw [graph_probes, expanded_probes]
  exact harena'

theorem tidy_levelWith (answers : Query → Answer) (h : Tidy rules dependencies declared b) :
    Tidy rules dependencies declared (b.levelWith rules answers) :=
  (levelWith_induction answers (Q := fun _ _ => True) (fun _ _ _ _ _ => trivial)
    (fun _ _ _ _ _ _ _ => trivial) (fun _ _ => trivial) h trivial).1

theorem tidy_start (rules : PlatformRules) (root : Coordinates) (dependencies : List Dependency)
    (constraints : SortedSet Constraint) :
    Tidy rules (rootRequests root dependencies)
      (constraints.toList.map fun c => ⟨c.target, c.requirement⟩)
      (start root dependencies constraints) := by
  have hgraph := graph_start root dependencies constraints
  have hfinding : ∀ c, (start root dependencies constraints).graph.finding? c = none := by
    intro c
    rw [hgraph]
    rfl
  have hexpanded : ∀ c, c ∉ (start root dependencies constraints).expanded :=
    SortedSet.not_mem_empty
  have hqueue := @mem_queue_start root dependencies constraints
  refine ⟨arena_start rules root dependencies constraints, ?_, fun q _ set hset => nomatch hset⟩
  constructor
  case reached => exact fun c hc => absurd hc (hexpanded c)
  case root => exact fun e _ edge hedge => Or.inl (Or.inr (hqueue.2 ⟨e, edge, hedge, rfl⟩))
  case onward => exact fun c hc => absurd hc (hexpanded c)
  case noted =>
    rintro q (hq | ⟨c, hc, -⟩)
    · exact hq
    · exact absurd hc (hexpanded c)
  case probed => exact fun q hq => absurd hq (SortedSet.not_mem_empty q)
  case recorded =>
    intro c f hf
    rw [hfinding] at hf
    cases hf
  case queued =>
    intro a ha
    obtain ⟨e, edge, hedge, rfl⟩ := hqueue.1 (ha.resolve_left List.not_mem_nil)
    exact ⟨edge.query, Option.map_eq_some_iff.2 ⟨edge, hedge, rfl⟩⟩
  case probes =>
    intro q hq
    obtain ⟨e, edge, -, hne⟩ := hqueue.1 (hq.resolve_left List.not_mem_nil)
    cases hne

/-- What is left when a builder has come to an end. -/
theorem tidy_of_run {σ : Type} {lookup : Lookup σ} {root : Coordinates}
    {dependencies : List Dependency} {constraints : SortedSet Constraint} {levels : Nat}
    {s s' : σ} {g : CandidateGraph}
    (hrun : ((start root dependencies constraints).run lookup rules levels).run s = (some g, s')) :
    ∃ b : Builder, b.graph = g ∧ b.queue = [] ∧ Tidy rules (rootRequests root dependencies)
      (constraints.toList.map fun c => ⟨c.target, c.requirement⟩) b := by
  obtain ⟨b, hb, hdone, hg⟩ := run_induction (fun _ answers _ => tidy_levelWith answers)
    (tidy_start rules root dependencies constraints) hrun
  exact ⟨b, hg, hdone, hb⟩

end Builder

/-! ## Finished graphs -/

/-- Everything that the edges and constraints of a graph lead to is in the region, and what is on
record is in it too. -/
structure Coverage (g : CandidateGraph) (R : Region) (declared : List Query) : Prop where
  known : ∀ c, R.nodes c → ∃ f, g.finding? c = some f
  recorded : ∀ c f, g.finding? c = some f → R.nodes c
  reached : ∀ c, R.nodes c → ∃ set, R.exclusions c.id = some set
  root : ∀ e ∈ g.rootEdges, ∀ edge, g.edge? e = some edge →
    g.Followed R edge edge.dependency.exclusions
  onward : ∀ c, R.nodes c → ∀ set, R.exclusions c.id = some set →
    ∀ e ∈ g.outgoing c, ∀ edge, g.edge? e = some edge → set.exclude edge.target = false →
      g.Followed R edge (set.union edge.dependency.exclusions)
  constrained : ∀ q, q ∈ declared ∨ (∃ c, R.nodes c ∧ q ∈ g.constraintsOf c) →
    ∀ set, R.exclusions q.target = some set → ∃ o, g.outcome? q = some o ∧
      ∀ v, g.answer? q = some v → R.nodes (q.target.atVersion v)

theorem Builder.Tidy.coverage {rules : PlatformRules} {dependencies : List (Dependency × Bool)}
    {declared : List Query} {b : Builder} (h : Tidy rules dependencies declared b)
    (hdone : b.queue = []) : Coverage b.graph b.region declared := by
  have hnone : ∀ a, ¬Awaits [] b a := by
    rintro a (ha | ha)
    · cases ha
    · rw [hdone] at ha
      cases ha
  constructor
  case known => exact h.arena.known
  case recorded =>
    intro c f hf
    rcases h.owed.recorded c f hf with hc | ⟨a, ha, -⟩
    · exact hc
    · cases ha
  case reached => exact h.owed.reached
  case root => exact fun e he edge hedge => (h.owed.root e he edge hedge).resolve_left (hnone _)
  case onward =>
    intro c hc set hset e he edge hedge hex
    exact (h.owed.onward c hc set hset e he edge hedge hex).resolve_left (hnone _)
  case constrained =>
    intro q hq set hset
    have hprobed := h.probed q (h.owed.noted q hq) set hset
    obtain ⟨⟨o, ho⟩, hexpanded⟩ := (h.owed.probed q hprobed).resolve_left (hnone _)
    exact ⟨o, ho, hexpanded⟩

end Lockstep
