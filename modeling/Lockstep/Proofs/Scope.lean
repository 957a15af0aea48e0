import Lockstep.Proofs.Coverage

/-!
# What a task leads to

A task says what a builder works on. Its scope is the least one that is closed
under what the provider tells: every scope with that property holds all that
the builder ever reaches (`Task.Within`), and what the builder has reached in
the end has that property itself (`Task.Finished.closed_scope`). Neither mentions the
numbers of edges or the order in which they are met, so two builders with
different queues come to the same scope.
-/

namespace Lockstep

/-! ## What a provider tells -/

namespace Provider

/-- The version that answers a query. -/
def answer? (p : Provider) (q : Query) : Option String :=
  match CandidateGraph.outcomeOf q (p q) with
  | .ok v => some v
  | .error _ => none

theorem answer?_eq_some_iff {p : Provider} {q : Query} {v : String} :
    p.answer? q = some v ↔ CandidateGraph.outcomeOf q (p q) = .ok v := by
  unfold answer?
  split
  · next w h => rw [h, Option.some.injEq, Except.ok.injEq]
  · next u h => exact ⟨nofun, fun h' => absurd (h.symm.trans h') nofun⟩

/-- An answer comes to a version and says this of it. -/
def Tells (p : Provider) (c : Coordinates) (f : Finding) : Prop :=
  ∃ q, q.target = c.id ∧ p.answer? q = some c.version ∧ CandidateGraph.findingOf (p q) = f

/-- All answers that come to a version say the same of it. -/
def Steady (p : Provider) : Prop :=
  ∀ c f f', p.Tells c f → p.Tells c f' → f = f'

end Provider

/-! ## Tasks and scopes -/

/-- What a builder works on. -/
structure Task where
  provider : Provider
  rules : PlatformRules
  root : Coordinates
  dependencies : List Dependency
  constraints : SortedSet Constraint

/-- What has been reached, and the queries that have been made for it. -/
structure Scope where
  region : Region
  asked : Query → Prop

namespace Scope

/-- A query has been made, and the version that answers it is inside. -/
structure Looked (S : Scope) (p : Provider) (q : Query) : Prop where
  asked : S.asked q
  nodes : ∀ v, p.answer? q = some v → S.region.nodes (q.target.atVersion v)

/-- A dependency has been looked up, and its target has arrived. -/
structure Meets (S : Scope) (p : Provider) (d : Dependency) (inherited : Exclusions) : Prop where
  asked : S.asked ⟨d.target, d.requirement⟩
  arrives : S.region.Arrives d.target (p.answer? ⟨d.target, d.requirement⟩) inherited

theorem Meets.weaken {S : Scope} {p : Provider} {d : Dependency} {inherited more : Exclusions}
    (h : S.Meets p d inherited) (hsub : inherited ⊆ more) : S.Meets p d more :=
  ⟨h.asked, h.arrives.weaken hsub⟩

theorem Meets.looked {S : Scope} {p : Provider} {d : Dependency} {inherited : Exclusions}
    (h : S.Meets p d inherited) : S.Looked p ⟨d.target, d.requirement⟩ := by
  obtain ⟨set, -, -, hnode⟩ := h.arrives
  exact ⟨h.asked, hnode⟩

/-- Every version and every query of `S` is one of `T`, with no more exclusions. -/
structure Le (S T : Scope) : Prop where
  region : S.region.Le T.region
  asked : ∀ q, S.asked q → T.asked q

theorem le_antisymm {S T : Scope} (hST : S.Le T) (hTS : T.Le S) : S = T := by
  have hregion := Region.le_antisymm hST.region hTS.region
  have hasked : S.asked = T.asked :=
    funext fun q => propext ⟨hST.asked q, hTS.asked q⟩
  obtain ⟨region, asked⟩ := S
  subst hregion hasked
  rfl

end Scope

namespace Task

/-- The queries of the constraints given. -/
def declared (t : Task) : List Query :=
  t.constraints.toList.map fun k => ⟨k.target, k.requirement⟩

def start (t : Task) : Builder :=
  .start t.root t.dependencies t.constraints

/-- A version has this dependency. -/
def Requests (t : Task) (c : Coordinates) (r : Dependency × Bool) : Prop :=
  ∃ d, t.provider.Tells c (.found d) ∧ r ∈ Builder.outgoingOf t.rules t.root c d

/-- A version publishes a constraint with this query. -/
def Constrains (t : Task) (c : Coordinates) (q : Query) : Prop :=
  ∃ d, t.provider.Tells c (.found d) ∧ ∃ k ∈ d.constraints, q = ⟨k.target, k.requirement⟩

/-- Whatever the provider tells of the versions inside leads to nothing outside. -/
structure Closed (t : Task) (S : Scope) : Prop where
  root : ∀ d ∈ t.dependencies, d.target ≠ t.root.id → S.Meets t.provider d d.exclusions
  onward : ∀ c, S.region.nodes c → ∀ set, S.region.exclusions c.id = some set →
    ∀ r, t.Requests c r → set.exclude r.1.target = false →
      S.Meets t.provider r.1 (set.union r.1.exclusions)
  constrained : ∀ q, q ∈ t.declared ∨ (∃ c, S.region.nodes c ∧ t.Constrains c q) →
    ∀ set, S.region.exclusions q.target = some set → S.Looked t.provider q

end Task

/-- What a builder has reached, and what it has looked up for it. -/
def Builder.scope (b : Builder) : Scope :=
  ⟨b.region, fun q => ∃ o, b.graph.outcome? q = some o⟩

/-! ## A builder inside a closed scope -/

namespace Task

open Builder

variable {t : Task} {S : Scope} {b : Builder} {todo rest : List Arrival}
  {dependencies : List (Dependency × Bool)}

/-- All that a builder has reached, and all that its arrivals lead to, is inside. -/
structure Within (t : Task) (S : Scope) (todo : List Arrival) (b : Builder) : Prop where
  root : b.graph.root = t.root
  region : b.region.Le S.region
  outcomes : ∀ q o, b.graph.outcome? q = some o →
    S.asked q ∧ o = CandidateGraph.outcomeOf q (t.provider q)
  findings : ∀ c f, b.graph.finding? c = some f → t.provider.Tells c f
  edges : ∀ e inherited, Awaits todo b (.edge e inherited) → ∀ edge,
    b.graph.edge? e = some edge → S.Meets t.provider edge.dependency inherited
  probes : ∀ q, Awaits todo b (.probe q) → S.Looked t.provider q
  constrained : ∀ q ∈ b.constrained, ∀ set, S.region.exclusions q.target = some set →
    S.Looked t.provider q

theorem Within.answer? (h : t.Within S todo b) {q : Query} {v : String}
    (hv : b.graph.answer? q = some v) : t.provider.answer? q = some v := by
  obtain ⟨-, ho⟩ := h.outcomes q _ (CandidateGraph.answer?_eq_some_iff.1 hv)
  exact Provider.answer?_eq_some_iff.2 ho.symm

/-- What a graph takes for the dependencies of a version, the task takes for them too. -/
theorem Within.requests (h : t.Within S todo b) {c : Coordinates} {r : Dependency × Bool}
    (hr : r ∈ b.graph.requestsOf t.rules c) : t.Requests c r := by
  obtain ⟨d, hd, hr⟩ := CandidateGraph.mem_requestsOf.1 hr
  rw [h.root] at hr
  exact ⟨d, h.findings c _ (CandidateGraph.descriptor?_eq_some_iff.1 hd), hr⟩

theorem Within.constrains (h : t.Within S todo b) {c : Coordinates} {q : Query}
    (hq : q ∈ b.graph.constraintsOf c) : t.Constrains c q := by
  obtain ⟨d, hd, hk⟩ := CandidateGraph.mem_constraintsOf.1 hq
  exact ⟨d, h.findings c _ (CandidateGraph.descriptor?_eq_some_iff.1 hd), hk⟩

/-- The edges of a version inside lead to nothing outside. -/
theorem Closed.meets_of_mem_arrivals (hclosed : t.Closed S) {g : CandidateGraph} {c : Coordinates}
    (hcarries : g.Carries c (g.outgoing c) dependencies)
    (hrequests : ∀ r ∈ dependencies, t.Requests c r) (hc : S.region.nodes c) {set : Exclusions}
    (hset : ∃ shared, S.region.exclusions c.id = some shared ∧ shared ⊆ set) {e : EdgeId}
    {inherited : Exclusions} (ha : .edge e inherited ∈ arrivals g set c) {edge : Edge}
    (hedge : g.edge? e = some edge) : S.Meets t.provider edge.dependency inherited := by
  obtain ⟨e', edge', he, hedge', hex, heq⟩ := mem_arrivals.1 ha
  obtain ⟨rfl, rfl⟩ := Arrival.edge.inj heq
  rw [hedge] at hedge'
  obtain rfl := Option.some.inj hedge'
  obtain ⟨edge', hedge', -, hmem⟩ := hcarries.exists_edge he
  rw [hedge] at hedge'
  obtain rfl := Option.some.inj hedge'
  obtain ⟨shared, hshared, hsub⟩ := hset
  have hmeets := hclosed.onward c hc shared hshared _ (hrequests _ hmem)
    (Exclusions.exclude_eq_false_of_subset hsub hex)
  exact hmeets.weaken (SortedSet.union_subset_union hsub)

theorem within_revisit (hclosed : t.Closed S)
    (harena : b.graph.Arena t.rules dependencies b.expanded) (h : t.Within S todo b) (e : EdgeId)
    {edge : Edge} {incoming : Exclusions}
    (hmeets : S.Meets t.provider edge.dependency incoming) :
    t.Within S todo (b.revisit e edge incoming) := by
  have hregion := region_revisit_le h.region hmeets.arrives e
  constructor
  case root => exact h.root
  case region => exact hregion
  case outcomes => exact h.outcomes
  case findings => exact h.findings
  case edges =>
    intro e' inherited ha edge' hedge'
    rcases awaits_revisit_iff.1 ha with ha | ⟨c, hc, ha⟩
    · obtain ⟨before, resolved, hbefore, rfl⟩ :=
        CandidateGraph.exists_of_edge?_setResolved hedge'
      exact h.edges e' inherited ha before hbefore
    · obtain ⟨-, hid, -, hexpanded⟩ := (mem_again harena.coordinates).1 hc
      have hcarries := (harena.setResolved e (b.graph.answer? edge.query)).outgoing c hexpanded
      refine hclosed.meets_of_mem_arrivals hcarries (fun r hr => h.requests hr)
        (h.region.nodes c hexpanded) ?_ ha hedge'
      rw [hid]
      refine hregion.exclusions edge.target _ ?_
      exact get?_exclusions_revisit_target b e edge incoming
  case probes => exact fun q hq => h.probes q (awaits_probe_of_revisit hq)
  case constrained => exact h.constrained

theorem within_expandNew (hclosed : t.Closed S)
    (harena : b.graph.Arena t.rules dependencies b.expanded)
    (hqueued : ∀ a, Awaits todo b a → ∃ q, b.query? a = some q) (h : t.Within S todo b)
    {c : Coordinates} (hreached : ∃ set, b.exclusions.get? c.id = some set)
    (hknown : ∃ f, b.graph.finding? c = some f) (hnode : S.region.nodes c) (hnew : c ∉ b.expanded) :
    t.Within S todo (b.expandNew t.rules c) := by
  obtain ⟨set, hset⟩ := hreached
  rw [expandNew_eq hnew hset]
  have hfinding : ∀ c', (b.graph.withEdgesOf t.rules c).finding? c' = b.graph.finding? c' :=
    CandidateGraph.finding?_withEdgesOf t.rules b.graph c
  constructor
  case root => exact (CandidateGraph.root_withEdgesOf t.rules b.graph c).trans h.root
  case region =>
    refine ⟨fun c' hc' => ?_, h.region.exclusions⟩
    rcases SortedSet.mem_insert.1 hc' with rfl | hc'
    · exact hnode
    · exact h.region.nodes c' hc'
  case outcomes =>
    intro q o ho
    rw [CandidateGraph.outcome?_withEdgesOf] at ho
    exact h.outcomes q o ho
  case findings =>
    intro c' f hf
    rw [hfinding] at hf
    exact h.findings c' f hf
  case edges =>
    intro e inherited ha edge hedge
    rcases (awaits_append_iff rfl).1 ha with ha | ha
    · obtain ⟨q, hq⟩ := hqueued _ ha
      obtain ⟨before, hbefore, -⟩ := Option.map_eq_some_iff.1 hq
      exact h.edges e inherited ha edge (CandidateGraph.edge?_of_edge?_withEdgesOf hbefore hedge)
    · have harena' := harena.withEdgesOf hnew hknown
      refine hclosed.meets_of_mem_arrivals
        (harena'.outgoing c (SortedSet.mem_insert.2 (Or.inl rfl))) (fun r hr => ?_) hnode
        (h.region.exclusions c.id set hset) ha hedge
      rw [CandidateGraph.requestsOf_congr
        (CandidateGraph.root_withEdgesOf t.rules b.graph c) (hfinding c)] at hr
      exact h.requests hr
  case probes =>
    intro q hq
    exact h.probes q (((awaits_append_iff rfl).1 hq).resolve_right (probe_not_mem_arrivals q))
  case constrained =>
    intro q hq set' hset'
    rcases List.mem_append.1 hq with hq | hq
    · exact h.constrained q hq set' hset'
    · exact hclosed.constrained q (Or.inr ⟨c, hnode, h.constrains hq⟩) set' hset'

theorem within_expandAnswer (hclosed : t.Closed S)
    (harena : b.graph.Arena t.rules dependencies b.expanded)
    (hqueued : ∀ a, Awaits todo b a → ∃ q, b.query? a = some q) (h : t.Within S todo b) {q : Query}
    (hreached : ∃ set, b.exclusions.get? q.target = some set) (hlooked : S.Looked t.provider q) :
    t.Within S todo (b.expandAnswer t.rules q) := by
  rcases expandAnswer_eq_or t.rules b q with ⟨heq, -⟩ | ⟨v, hv, hnew, heq⟩
  · rw [heq]
    exact h
  · rw [heq]
    exact within_expandNew hclosed harena hqueued h hreached (harena.answered q v hv)
      (hlooked.nodes v (h.answer? hv)) hnew

/-! ## Levels -/

theorem Within.drop {a : Arrival} (h : t.Within S (a :: rest) b) : t.Within S rest b :=
  ⟨h.root, h.region, h.outcomes, h.findings,
    fun e inherited ha => h.edges e inherited (ha.imp_left (List.mem_cons_of_mem a)),
    fun q hq => h.probes q (hq.imp_left (List.mem_cons_of_mem a)), h.constrained⟩

theorem within_process (hclosed : t.Closed S)
    (harena : b.graph.Arena t.rules dependencies b.expanded) {a : Arrival} {declared : List Query}
    (howed : Owed declared (a :: rest) b) (h : t.Within S (a :: rest) b) :
    t.Within S rest (b.process t.rules a) := by
  cases a with
  | probe q =>
      rw [process_probe]
      have hawaits : Awaits (.probe q :: rest) b (.probe q) := Or.inl List.mem_cons_self
      exact (within_expandAnswer hclosed harena howed.queued h (howed.probes q hawaits)
        (h.probes q hawaits)).drop
  | edge e incoming =>
      have hawaits : Awaits (.edge e incoming :: rest) b (.edge e incoming) :=
        Or.inl List.mem_cons_self
      obtain ⟨edge, hedge⟩ := howed.exists_edge
      rw [process_edge harena.coordinates hedge]
      have hmeets := h.edges e incoming hawaits edge hedge
      have hrevisit := within_revisit hclosed harena h e hmeets
      have howed' := owed_revisit harena howed hedge incoming
      have hshared := get?_exclusions_revisit_target b e edge incoming
      exact (within_expandAnswer hclosed (harena.setResolved e _) howed'.queued hrevisit
        ⟨_, hshared⟩ hmeets.looked).drop

theorem within_record (h : t.Within S todo b) {q : Query}
    (hq : ∃ a, Awaits todo b a ∧ b.query? a = some q) :
    t.Within S todo (b.record q (t.provider q)) := by
  have hasked : S.asked q := by
    obtain ⟨a, ha, hqa⟩ := hq
    cases a with
    | probe q' =>
        obtain rfl : q' = q := Option.some.inj hqa
        exact (h.probes q' ha).asked
    | edge e inherited =>
        obtain ⟨edge, hedge, rfl⟩ := Option.map_eq_some_iff.1 hqa
        exact (h.edges e inherited ha edge hedge).asked
  constructor
  case root => exact (CandidateGraph.root_record b.graph q _).trans h.root
  case region => exact h.region
  case outcomes =>
    intro q' o ho
    change (b.graph.record q _).outcome? q' = some o at ho
    rw [CandidateGraph.outcome?_record] at ho
    split at ho
    · next heq =>
      subst heq
      exact ⟨hasked, (Option.some.inj ho).symm⟩
    · exact h.outcomes q' o ho
  case findings =>
    intro c f hf
    change (b.graph.record q _).finding? c = some f at hf
    rw [CandidateGraph.finding?_record] at hf
    split at hf
    · next hcond =>
      cases hold : b.graph.finding? c with
      | some f' =>
          rw [hold] at hf
          obtain rfl := Option.some.inj hf
          exact h.findings c f' hold
      | none =>
          rw [hold] at hf
          exact ⟨q, hcond.2, Provider.answer?_eq_some_iff.2 hcond.1, Option.some.inj hf⟩
    · exact h.findings c f hf
  case edges =>
    intro e inherited ha edge hedge
    refine h.edges e inherited ha edge ?_
    rw [← hedge]
    exact (CandidateGraph.edge?_record b.graph q _ e).symm
  case probes => exact h.probes
  case constrained => exact h.constrained

theorem within_probes (h : t.Within S [] b) : t.Within S [] b.probes := by
  obtain ⟨new, heq, hnew, -⟩ := probes_eq b
  rw [heq]
  constructor
  case root => exact h.root
  case region => exact h.region
  case outcomes => exact h.outcomes
  case findings => exact h.findings
  case edges =>
    intro e inherited ha
    exact h.edges e inherited (((awaits_append_iff rfl).1 ha).resolve_right (by simp))
  case probes =>
    intro q hq
    rcases (awaits_append_iff rfl).1 hq with hq | hq
    · exact h.probes q hq
    · obtain ⟨q', hq', heq⟩ := List.mem_map.1 hq
      obtain rfl := Arrival.probe.inj heq
      obtain ⟨hmem, hreached, -⟩ := hnew q' hq'
      obtain ⟨set, hset⟩ := SortedMap.contains_iff.1 hreached
      obtain ⟨shared, hshared, -⟩ := h.region.exclusions _ set hset
      exact h.constrained q' hmem shared hshared
  case constrained => exact h.constrained

theorem Within.begin (h : t.Within S [] b) : t.Within S b.queue { b with queue := [] } :=
  ⟨h.root, h.region, h.outcomes, h.findings,
    fun e _ ha => h.edges e _ (awaits_begin_iff.1 ha),
    fun q hq => h.probes q (awaits_begin_iff.1 hq), h.constrained⟩

theorem within_levelWith (hclosed : t.Closed S) {answers : Query → Answer}
    (hanswers : ∀ q ∈ b.wanted, answers q = t.provider q)
    (htidy : Tidy t.rules dependencies t.declared b) (h : t.Within S [] b) :
    t.Within S [] (b.levelWith t.rules answers) := by
  refine (levelWith_induction answers (Q := t.Within S) ?_ ?_ ?_ htidy ?_).2
  · intro b' q hq hwanted hb'
    obtain ⟨a, ha, hqa⟩ := hq
    rw [hanswers q hwanted]
    exact within_record hb' ⟨a, Or.inl ha, hqa⟩
  · exact fun a rest b' harena howed _ hb' => within_process hclosed harena howed hb'
  · exact fun b' hb' => within_probes hb'
  · exact h.begin

theorem within_start (hclosed : t.Closed S) : t.Within S [] t.start := by
  have hgraph := graph_start t.root t.dependencies t.constraints
  have hqueue := @mem_queue_start t.root t.dependencies t.constraints
  constructor
  case root =>
    change (Builder.start _ _ _).graph.root = _
    rw [hgraph]
  case region =>
    exact ⟨fun c hc => absurd hc (SortedSet.not_mem_empty c), fun id set hset => (by cases hset)⟩
  case outcomes =>
    intro q o ho
    change (Builder.start _ _ _).graph.outcome? q = some o at ho
    rw [hgraph] at ho
    cases ho
  case findings =>
    intro c f hf
    change (Builder.start _ _ _).graph.finding? c = some f at hf
    rw [hgraph] at hf
    cases hf
  case edges =>
    intro e inherited ha edge hedge
    obtain ⟨e', edge', hedge', heq⟩ := hqueue.1 (ha.resolve_left List.not_mem_nil)
    obtain ⟨rfl, rfl⟩ := Arrival.edge.inj heq
    obtain rfl := Option.some.inj (hedge.symm.trans hedge')
    obtain ⟨d, hd, hne, rfl⟩ := exists_of_edge?_start hedge'
    exact hclosed.root d hd hne
  case probes =>
    intro q hq
    obtain ⟨e, edge, -, hne⟩ := hqueue.1 (hq.resolve_left List.not_mem_nil)
    cases hne
  case constrained => exact fun q hq => hclosed.constrained q (Or.inl hq)

/-! ## Finished builders -/

/-- A builder that has nothing left to do for its task. -/
structure Finished (t : Task) (b : Builder) : Prop where
  tidy : Tidy t.rules (rootRequests t.root t.dependencies) t.declared b
  within : ∀ S, t.Closed S → t.Within S [] b
  done : b.queue = []

theorem finished_of_run {levels : Nat} {s : Unit} {g : CandidateGraph}
    (hrun : (t.start.run t.provider.lookup t.rules levels).run s = (some g, s)) :
    ∃ b, t.Finished b ∧ b.graph = g := by
  obtain ⟨b, ⟨htidy, hwithin⟩, hdone, hg⟩ := run_induction
    (P := fun b => Tidy t.rules (rootRequests t.root t.dependencies) t.declared b ∧
      ∀ S, t.Closed S → t.Within S [] b)
    (fun b answers hanswers ⟨htidy, hwithin⟩ => by
      have heq : ∀ q ∈ b.wanted, answers q = t.provider q := by
        intro q hq
        obtain ⟨s, hs⟩ := hanswers q hq
        exact hs
      exact ⟨tidy_levelWith answers htidy,
        fun S hclosed => within_levelWith hclosed heq htidy (hwithin S hclosed)⟩)
    ⟨tidy_start t.rules t.root t.dependencies t.constraints, fun S => within_start⟩ hrun
  exact ⟨b, ⟨htidy, hwithin, hdone⟩, hg⟩

/-- Everything, without any exclusions. -/
def everything : Scope :=
  ⟨⟨fun _ => True, fun _ => some ∅⟩, fun _ => True⟩

theorem closed_everything (t : Task) : t.Closed everything := by
  have hmeets : ∀ d inherited, everything.Meets t.provider d inherited := fun d inherited =>
    ⟨trivial, ∅, rfl, fun a ha => absurd ha (SortedSet.not_mem_empty a), fun _ _ => trivial⟩
  exact ⟨fun d _ _ => hmeets d _, fun c _ set _ r _ _ => hmeets r.1 _,
    fun q _ set _ => ⟨trivial, fun _ _ => trivial⟩⟩

namespace Finished

variable (h : t.Finished b)

include h

theorem coverage : Coverage b.graph b.region t.declared :=
  h.tidy.coverage h.done

theorem root_eq : b.graph.root = t.root :=
  (h.within _ t.closed_everything).root

theorem outcome?_eq {q : Query} {o : Except Unmatched String} (ho : b.graph.outcome? q = some o) :
    o = CandidateGraph.outcomeOf q (t.provider q) :=
  ((h.within _ t.closed_everything).outcomes q o ho).2

theorem answer?_eq {q : Query} (hq : ∃ o, b.graph.outcome? q = some o) :
    b.graph.answer? q = t.provider.answer? q := by
  obtain ⟨o, ho⟩ := hq
  have heq := h.outcome?_eq ho
  unfold CandidateGraph.answer? Provider.answer?
  rw [ho, heq]
  cases CandidateGraph.outcomeOf q (t.provider q) <;> rfl

theorem tells {c : Coordinates} {f : Finding} (hf : b.graph.finding? c = some f) :
    t.provider.Tells c f :=
  (h.within _ t.closed_everything).findings c f hf

/-- What is told of a version inside has been recorded. -/
theorem finding?_eq (hsteady : t.provider.Steady) {c : Coordinates} (hc : b.region.nodes c)
    {f : Finding} (hf : t.provider.Tells c f) : b.graph.finding? c = some f := by
  obtain ⟨f', hf'⟩ := h.coverage.known c hc
  rw [hf', hsteady c f' f (h.tells hf') hf]

theorem descriptor?_eq (hsteady : t.provider.Steady) {c : Coordinates} (hc : b.region.nodes c)
    {d : Descriptor} (hd : t.provider.Tells c (.found d)) : b.graph.descriptor? c = some d :=
  CandidateGraph.descriptor?_eq_some_iff.2 (h.finding?_eq hsteady hc hd)

theorem meets_of_followed {edge : Edge} {inherited : Exclusions}
    (hfollowed : b.graph.Followed b.region edge inherited) :
    b.scope.Meets t.provider edge.dependency inherited := by
  refine ⟨hfollowed.asked, ?_⟩
  have harrives := hfollowed.arrives
  rw [h.answer?_eq hfollowed.asked] at harrives
  exact harrives

/-! ### Edges of the root and of what has been reached -/

theorem exists_rootEdge {d : Dependency} (hd : d ∈ t.dependencies) (hne : d.target ≠ t.root.id) :
    ∃ e ∈ b.graph.rootEdges, ∃ edge, b.graph.edge? e = some edge ∧ edge.dependency = d := by
  have hmem : (d, false) ∈ rootRequests t.root t.dependencies :=
    List.mem_map.2 ⟨d, List.mem_filter.2 ⟨hd, by simpa using hne⟩, rfl⟩
  obtain ⟨e, he, edge, hedge, -, hdependency, -⟩ := h.tidy.arena.root.exists_mem hmem
  exact ⟨e, he, edge, hedge, hdependency⟩

theorem dependency_of_rootEdge {e : EdgeId} (he : e ∈ b.graph.rootEdges) {edge : Edge}
    (hedge : b.graph.edge? e = some edge) : edge.dependency ∈ t.dependencies := by
  obtain ⟨edge', hedge', -, hmem⟩ := h.tidy.arena.root.exists_edge he
  obtain rfl := Option.some.inj (hedge.symm.trans hedge')
  obtain ⟨d, hd, heq⟩ := List.mem_map.1 hmem
  obtain ⟨rfl, -⟩ := Prod.mk.inj heq
  exact (List.mem_filter.1 hd).1

theorem exists_outgoing (hsteady : t.provider.Steady) {c : Coordinates} (hc : b.region.nodes c)
    {r : Dependency × Bool} (hr : t.Requests c r) :
    ∃ e ∈ b.graph.outgoing c, ∃ edge, b.graph.edge? e = some edge ∧ edge.dependency = r.1 := by
  obtain ⟨d, htells, hr⟩ := hr
  have hmem : r ∈ b.graph.requestsOf t.rules c := by
    rw [← h.root_eq] at hr
    exact CandidateGraph.mem_requestsOf.2 ⟨d, h.descriptor?_eq hsteady hc htells, hr⟩
  obtain ⟨e, he, edge, hedge, -, hdependency, -⟩ := (h.tidy.arena.outgoing c hc).exists_mem hmem
  exact ⟨e, he, edge, hedge, hdependency⟩

theorem requests_of_outgoing {c : Coordinates} {e : EdgeId} (he : e ∈ b.graph.outgoing c)
    {edge : Edge} (hedge : b.graph.edge? e = some edge) :
    t.Requests c (edge.dependency, edge.synthetic) := by
  have hc := h.tidy.arena.expanded_of_mem_outgoing he
  obtain ⟨edge', hedge', -, hmem⟩ := (h.tidy.arena.outgoing c hc).exists_edge he
  obtain rfl := Option.some.inj (hedge.symm.trans hedge')
  exact (h.within _ t.closed_everything).requests hmem

/-- The scope of a finished builder is closed. -/
theorem closed_scope (hsteady : t.provider.Steady) : t.Closed b.scope := by
  have hcoverage := h.coverage
  constructor
  case root =>
    intro d hd hne
    obtain ⟨e, he, edge, hedge, hdependency⟩ := h.exists_rootEdge hd hne
    have hmeets := h.meets_of_followed (hcoverage.root e he edge hedge)
    rw [hdependency] at hmeets
    exact hmeets
  case onward =>
    intro c hc set hset r hr hex
    obtain ⟨e, he, edge, hedge, hdependency⟩ := h.exists_outgoing hsteady hc hr
    have htarget : edge.target = r.1.target := congrArg Dependency.target hdependency
    have hmeets := h.meets_of_followed
      (hcoverage.onward c hc set hset e he edge hedge (htarget ▸ hex))
    rw [hdependency] at hmeets
    exact hmeets
  case constrained =>
    intro q hq set hset
    have hnoted : q ∈ t.declared ∨ ∃ c, b.region.nodes c ∧ q ∈ b.graph.constraintsOf c := by
      refine hq.imp_right ?_
      rintro ⟨c, hc, d, htells, hk⟩
      exact ⟨c, hc, CandidateGraph.mem_constraintsOf.2 ⟨d, h.descriptor?_eq hsteady hc htells, hk⟩⟩
    obtain ⟨o, ho, hnode⟩ := hcoverage.constrained q hnoted set hset
    refine ⟨⟨o, ho⟩, fun v hv => hnode v ?_⟩
    rw [h.answer?_eq ⟨o, ho⟩]
    exact hv

/-- No closed scope is smaller. -/
theorem scope_le (hclosed : t.Closed S) : b.scope.Le S :=
  ⟨(h.within S hclosed).region, fun q ⟨o, ho⟩ => ((h.within S hclosed).outcomes q o ho).1⟩

end Finished

end Task

end Lockstep
