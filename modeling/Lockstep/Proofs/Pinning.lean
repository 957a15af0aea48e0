import Lockstep.Proofs.Forcing
import Lockstep.Proofs.Provision
import Lockstep.Proofs.Scope
import Lockstep.Proofs.Settled

/-!
# Pinned tasks

A task pins versions if its dependencies force exactly these, all with the same
exclusions, and the versions depend on nothing else that the exclusions let
through. Under a guide to the pinned versions nothing else is live
(`Task.Pins.mem_nodes_iff`). If no pinned version forces a module elsewhere and
no other version forces one further up, the second round has come to the pinned
versions (`Task.Pins.exists_run`).
-/

namespace Lockstep

/-- A dependency that forces one version. -/
def Dependency.pin (X : Exclusions) (id : ModuleId) (v : String) : Dependency :=
  { target := id, requirement := .exact v, forced := true, exclusions := X }

namespace Task

/-- A version has a forced dependency that comes to the given version of a module. -/
def Forces (t : Task) (c : Coordinates) (id : ModuleId) (w : String) : Prop :=
  ∃ r, t.Requests c r ∧ r.1.forced = true ∧ r.1.target = id ∧
    t.provider.answer? ⟨id, r.1.requirement⟩ = some w

/-- The dependencies of the task force these versions, and nothing else can come of them. -/
structure Pins (t : Task) (order : VersionOrder) (V : ModuleId → Option String)
    (X : Exclusions) : Prop where
  root : V t.root.id = none
  dependencies : ∀ d, d ∈ t.dependencies ↔ ∃ id v, V id = some v ∧ d = .pin X id v
  answered : ∀ id v, V id = some v → t.provider.answer? ⟨id, .exact v⟩ = some v
  told : ∀ id v, V id = some v → ∃ d, t.provider.Tells (id.atVersion v) (.found d)
  named : ∀ id v, V id = some v → ∀ q w, q.target = id → t.provider.answer? q = some w →
    order.same w v = true → w = v
  onward : ∀ c, V c.id = some c.version → ∀ r, t.Requests c r →
    X.exclude r.1.target = false → ∃ w, V r.1.target = some w
  kept : ∀ id v, V id = some v → X.exclude id = false

/-- The pinned versions, and what they lead to as long as nothing but the exclusions stops it. -/
inductive Drawn (t : Task) (V : ModuleId → Option String) (X : Exclusions) : Coordinates → Prop
  | pinned {c : Coordinates} : V c.id = some c.version → Drawn t V X c
  | onward {c : Coordinates} {r : Dependency × Bool} {w : String} : Drawn t V X c →
      t.Requests c r → X.exclude r.1.target = false →
      t.provider.answer? ⟨r.1.target, r.1.requirement⟩ = some w →
      Drawn t V X (r.1.target.atVersion w)

/-- Neither the dependencies of the root nor the constraints make a difference to what is drawn
in. -/
theorem Drawn.restart {t : Task} {V : ModuleId → Option String} {X : Exclusions} {c : Coordinates}
    {dependencies : List Dependency} {constraints : SortedSet Constraint}
    (h : Drawn { t with dependencies, constraints } V X c) : Drawn t V X c := by
  induction h with
  | pinned hc => exact .pinned hc
  | onward _ hr hex hw ih => exact ih.onward hr hex hw

/-- No pinned version forces a module away from its pin. -/
def Unopposed (t : Task) (V : ModuleId → Option String) : Prop :=
  ∀ c id v w, V c.id = some c.version → V id = some v → t.Forces c id w → w = v

/-- No other version that the pinned ones lead to forces a module beyond its pin. -/
def Unraised (t : Task) (order : VersionOrder) (V : ModuleId → Option String)
    (X : Exclusions) : Prop :=
  ∀ c id v w, t.Drawn V X c → V c.id ≠ some c.version → V id = some v → t.Forces c id w →
    order.compare w v ≠ .gt

end Task

/-- The guide has the pinned versions. -/
def Guide.Pinned (guide : Guide) (V : ModuleId → Option String) : Prop :=
  ∀ id v, V id = some v → guide.get? id = some v

namespace Task.Pins

variable {t : Task} {order : VersionOrder} {V : ModuleId → Option String} {X : Exclusions}
  {b : Builder} {guide : Guide} {live : Live} (h : t.Pins order V X) (hb : t.Finished b)

include h hb

/-! ## Edges of the root -/

theorem exists_rootEdge {id : ModuleId} {v : String} (hv : V id = some v) :
    ∃ e ∈ b.graph.rootEdges, ∃ edge, b.graph.edge? e = some edge ∧
      edge.dependency = .pin X id v := by
  refine hb.exists_rootEdge ((h.dependencies _).2 ⟨id, v, hv, rfl⟩) ?_
  rintro rfl
  rw [h.root] at hv
  cases hv

theorem pin_of_rootEdge {e : EdgeId} (he : e ∈ b.graph.rootEdges) {edge : Edge}
    (hedge : b.graph.edge? e = some edge) :
    ∃ id v, V id = some v ∧ edge.dependency = .pin X id v :=
  (h.dependencies _).1 (hb.dependency_of_rootEdge he hedge)

theorem answer?_of_pin {id : ModuleId} {v : String} (hv : V id = some v) {edge : Edge}
    (hdependency : edge.dependency = .pin X id v) {R : Region} {inherited : Exclusions}
    (hfollowed : b.graph.Followed R edge inherited) : b.graph.answer? edge.query = some v := by
  rw [hb.answer?_eq hfollowed.asked]
  unfold Edge.query
  rw [hdependency]
  exact h.answered id v hv

/-- The pinned versions have been reached. -/
theorem reached {c : Coordinates} (hc : V c.id = some c.version) : b.region.nodes c := by
  obtain ⟨e, he, edge, hedge, hdependency⟩ := h.exists_rootEdge hb hc
  have hfollowed := hb.coverage.root e he edge hedge
  obtain ⟨-, -, -, hnode⟩ := hfollowed.arrives
  have htarget : edge.target = c.id := congrArg Dependency.target hdependency
  rw [htarget] at hnode
  exact hnode c.version (h.answer?_of_pin hb hc hdependency hfollowed)

/-! ## Without a guide -/

/-- All ways have the exclusions of the pins. -/
theorem subset_of_walk (hwalk : walk b.graph guide = some live) {id : ModuleId} {set : Exclusions}
    (hset : live.exclusions.get? id = some set) : X ⊆ set := by
  have hclosed : (Region.mk (fun _ => True) fun _ => some X).Closed b.graph guide := by
    constructor
    case root =>
      intro e he edge hedge
      obtain ⟨id, v, -, hdependency⟩ := h.pin_of_rootEdge hb he hedge
      refine ⟨X, rfl, ?_, fun _ _ => trivial⟩
      rw [hdependency]
      exact SortedSet.Subset.refl X
    case onward =>
      intro c _ set hset e _ edge _ _
      obtain rfl := Option.some.inj hset
      exact ⟨X, rfl, fun a ha => SortedSet.mem_union.2 (Or.inl ha), fun _ _ => trivial⟩
  obtain ⟨shared, hshared, hsub⟩ := (le_of_walk hwalk hclosed).exclusions id set hset
  rw [← Option.some.inj hshared] at hsub
  exact hsub

omit h in
/-- Without a guide, edges lead to the versions that answer them. -/
theorem version?_of_unguided (hnone : ∀ id, guide.get? id = none)
    (hwalk : walk b.graph guide = some live) {e : EdgeId} {edge : Edge}
    (hedge : b.graph.edge? e = some edge) (hfollows : Live.Follows b.graph live e edge) :
    edge.version? guide = t.provider.answer? edge.query := by
  have hguides : b.graph.Guides guide := by
    intro id v hv
    rw [hnone id] at hv
    cases hv
  obtain ⟨inherited, hfollowed⟩ := hb.coverage.followed hguides hwalk hedge hfollows
  unfold Edge.version?
  rw [hnone, Option.none_or, hfollowed.resolved, hb.answer?_eq hfollowed.asked]

/-- Without a guide, what is live is drawn in by the pinned versions. -/
theorem drawn_of_live (hnone : ∀ id, guide.get? id = none)
    (hwalk : walk b.graph guide = some live) {c : Coordinates} (hc : c ∈ live.nodes) :
    t.Drawn V X c := by
  have hwalked := closed_of_walk hwalk
  have hclosed : (Region.mk (fun c => c ∈ live.nodes ∧ t.Drawn V X c)
      live.exclusions.get?).Closed b.graph guide := by
    constructor
    case root =>
      intro e he edge hedge
      obtain ⟨set, hset, hsub, hnode⟩ := hwalked.root e he edge hedge
      refine ⟨set, hset, hsub, fun w hw => ⟨hnode w hw, .pinned ?_⟩⟩
      obtain ⟨id, v, hv, hdependency⟩ := h.pin_of_rootEdge hb he hedge
      rw [version?_of_unguided hb hnone hwalk hedge (Or.inl he)] at hw
      unfold Edge.query at hw
      unfold Edge.target
      rw [hdependency] at hw ⊢
      exact hv.trans ((h.answered id v hv).symm.trans hw)
    case onward =>
      rintro c ⟨hc, hdrawn⟩ exclusions hexclusions e he edge hedge hex
      obtain ⟨set, hset, hsub, hnode⟩ :=
        hwalked.onward c hc exclusions hexclusions e he edge hedge hex
      refine ⟨set, hset, hsub, fun w hw => ⟨hnode w hw, ?_⟩⟩
      have hfollows : Live.Follows b.graph live e edge := by
        refine Or.inr ⟨c, hc, he, ?_⟩
        rw [Live.exclusionsOf_eq hexclusions]
        exact hex
      rw [version?_of_unguided hb hnone hwalk hedge hfollows] at hw
      exact hdrawn.onward (hb.requests_of_outgoing he hedge)
        (Exclusions.exclude_eq_false_of_subset (h.subset_of_walk hb hwalk hexclusions) hex) hw
  exact ((le_of_walk hwalk hclosed).nodes c hc).2

/-! ## Under a guide to the pinned versions -/

section

variable (hguide : guide.Pinned V) (hwalk : walk b.graph guide = some live)

include hguide

/-- The pinned versions, with the exclusions of the pins. -/
theorem closed : (Region.mk (fun c => V c.id = some c.version) fun _ => some X).Closed
    b.graph guide := by
  have harrives : ∀ {edge : Edge} {inherited : Exclusions} {w : String},
      V edge.target = some w → X ⊆ inherited →
      (Region.mk (fun c => V c.id = some c.version) fun _ => some X).Arrives edge.target
        (edge.version? guide) inherited := by
    intro edge inherited w hw hsub
    refine ⟨X, rfl, hsub, fun v hv => ?_⟩
    unfold Edge.version? at hv
    rw [hguide _ _ hw, Option.some_or] at hv
    rw [← Option.some.inj hv]
    exact hw
  constructor
  case root =>
    intro e he edge hedge
    obtain ⟨id, v, hv, hdependency⟩ := h.pin_of_rootEdge hb he hedge
    have htarget : edge.target = id := congrArg Dependency.target hdependency
    have hw : V edge.target = some v := htarget ▸ hv
    refine harrives hw ?_
    rw [hdependency]
    exact SortedSet.Subset.refl X
  case onward =>
    intro c hc set hset e he edge hedge hex
    obtain rfl := Option.some.inj hset
    obtain ⟨w, hw⟩ := h.onward c hc _ (hb.requests_of_outgoing he hedge) hex
    exact harrives hw fun a ha => SortedSet.mem_union.2 (Or.inl ha)

include hwalk

theorem mem_nodes_iff {c : Coordinates} : c ∈ live.nodes ↔ V c.id = some c.version := by
  constructor
  · exact fun hc => (le_of_walk hwalk (h.closed hb hguide)).nodes c hc
  · intro hv
    obtain ⟨e, he, edge, hedge, hdependency⟩ := h.exists_rootEdge hb hv
    obtain ⟨-, -, -, hnode⟩ := (closed_of_walk hwalk).root e he edge hedge
    have htarget : edge.target = c.id := congrArg Dependency.target hdependency
    rw [htarget] at hnode
    refine hnode c.version ?_
    unfold Edge.version?
    rw [htarget, hguide _ _ hv]
    rfl

theorem exclusionsOf_eq {c : Coordinates} (hv : V c.id = some c.version) :
    Live.exclusionsOf live.exclusions c = X := by
  obtain ⟨e, he, edge, hedge, hdependency⟩ := h.exists_rootEdge hb hv
  obtain ⟨set, hset, hsub, -⟩ := (closed_of_walk hwalk).root e he edge hedge
  have htarget : edge.target = c.id := congrArg Dependency.target hdependency
  rw [hdependency] at hsub
  rw [htarget] at hset
  obtain ⟨shared, hshared, hsub'⟩ :=
    (le_of_walk hwalk (h.closed hb hguide)).exclusions c.id set hset
  obtain rfl := Option.some.inj hshared
  rw [Live.exclusionsOf_eq hset]
  exact SortedSet.Subset.antisymm hsub hsub'

/-- The dependencies of pinned versions on each other are followed. -/
theorem exists_follows (hsteady : t.provider.Steady) {c : Coordinates}
    (hc : V c.id = some c.version) {r : Dependency × Bool} (hr : t.Requests c r) {w : String}
    (hw : V r.1.target = some w) : ∃ e edge, b.graph.edge? e = some edge ∧
      Live.Follows b.graph live e edge ∧ edge.dependency = r.1 := by
  obtain ⟨e, he, edge, hedge, hdependency⟩ := hb.exists_outgoing hsteady (h.reached hb hc) hr
  refine ⟨e, edge, hedge, Or.inr ⟨c, (h.mem_nodes_iff hb hguide hwalk).2 hc, he, ?_⟩, hdependency⟩
  rw [h.exclusionsOf_eq hb hguide hwalk hc]
  have htarget : edge.target = r.1.target := congrArg Dependency.target hdependency
  rw [htarget]
  exact h.kept _ w hw

/-- The modules that edges lead to are the pinned ones. -/
theorem contains_incoming {id : ModuleId} :
    live.incoming.contains id = true ↔ ∃ v, V id = some v := by
  constructor
  · intro hcontains
    obtain ⟨es, hes⟩ := SortedMap.contains_iff.1 hcontains
    obtain ⟨e, -, edge, hedge, rfl, hfollows⟩ := Live.exists_mem_incoming hwalk hes
    rcases hfollows with hroot | ⟨c, hc, hout, hex⟩
    · obtain ⟨id, v, hv, hdependency⟩ := h.pin_of_rootEdge hb hroot hedge
      have htarget : edge.target = id := congrArg Dependency.target hdependency
      exact ⟨v, htarget ▸ hv⟩
    · have hpinned := (h.mem_nodes_iff hb hguide hwalk).1 hc
      rw [h.exclusionsOf_eq hb hguide hwalk hpinned] at hex
      exact h.onward c hpinned _ (hb.requests_of_outgoing hout hedge) hex
  · rintro ⟨v, hv⟩
    obtain ⟨e, he, edge, hedge, hdependency⟩ := h.exists_rootEdge hb hv
    obtain ⟨es, hes, -⟩ := Live.exists_get?_incoming hwalk hedge (Or.inl he)
    have htarget : edge.target = id := congrArg Dependency.target hdependency
    rw [htarget] at hes
    exact SortedMap.contains_iff.2 ⟨es, hes⟩

end

/-! ## Forced edges -/

section

variable {constraints : SortedSet Constraint} (hguides : b.graph.Guides guide)
  (hwalk : walk b.graph guide = some live)

include hguides hwalk

omit h in
/-- An edge that is followed calls for the version that answers it. -/
theorem version?_ofEdge {e : EdgeId} {edge : Edge} (hedge : b.graph.edge? e = some edge)
    (hfollows : Live.Follows b.graph live e edge) :
    (Demands.ofEdge b.graph edge).version? = t.provider.answer? edge.query := by
  obtain ⟨inherited, hfollowed⟩ := hb.coverage.followed hguides hwalk hedge hfollows
  rw [← hb.answer?_eq hfollowed.asked, ← hfollowed.resolved]
  unfold Demands.ofEdge Candidate.version?
  cases edge.resolved <;> rfl

omit h in
theorem mem_forcedVersions_of_follows {e : EdgeId} {edge : Edge}
    (hedge : b.graph.edge? e = some edge) (hfollows : Live.Follows b.graph live e edge)
    (hforced : edge.dependency.forced = true) {w : String}
    (hw : t.provider.answer? edge.query = some w) {set : SortedSet Candidate}
    (hset : (Demands.gather b.graph live guide constraints).get? edge.target = some set) :
    w ∈ Choice.forcedVersions set := by
  obtain ⟨es, hes, he⟩ := Live.exists_get?_incoming hwalk hedge hfollows
  refine Choice.mem_forcedVersions.2 ⟨Demands.ofEdge b.graph edge,
    (Demands.mem_of_get?_gather hset).2 (Or.inl ⟨es, hes, e, he, edge, hedge, rfl⟩), ?_, ?_⟩
  · unfold Demands.ofEdge
    exact if_pos hforced
  · rw [version?_ofEdge hb hguides hwalk hedge hfollows]
    exact hw

/-- A pinned module is demanded at its pin, by force. -/
theorem exists_pinned (constraints : SortedSet Constraint) {id : ModuleId} {v : String}
    (hv : V id = some v) :
    ∃ set, (Demands.gather b.graph live guide constraints).get? id = some set ∧
      v ∈ Choice.forcedVersions set := by
  obtain ⟨e, he, edge, hedge, hdependency⟩ := h.exists_rootEdge hb hv
  have hfollows : Live.Follows b.graph live e edge := Or.inl he
  have htarget : edge.target = id := congrArg Dependency.target hdependency
  obtain ⟨es, hes, -⟩ := Live.exists_get?_incoming hwalk hedge hfollows
  rw [htarget] at hes
  obtain ⟨set, hset⟩ := SortedMap.contains_iff.1
    ((Demands.contains_gather b.graph live guide constraints id).trans
      (SortedMap.contains_iff.2 ⟨es, hes⟩))
  refine ⟨set, hset, ?_⟩
  refine mem_forcedVersions_of_follows hb hguides hwalk hedge hfollows ?_ ?_ (htarget ▸ hset)
  · rw [hdependency]
    rfl
  · unfold Edge.query
    rw [hdependency]
    exact h.answered id v hv

/-- What forced edges call for is the pin, or what a live version forces. -/
theorem origin_of_forced {id : ModuleId} {set : SortedSet Candidate}
    (hset : (Demands.gather b.graph live guide constraints).get? id = some set) {w : String}
    (hw : w ∈ Choice.forcedVersions set) :
    V id = some w ∨ ∃ c ∈ live.nodes, t.Forces c id w := by
  obtain ⟨candidate, hcandidate, hkind, hversion⟩ := Choice.mem_forcedVersions.1 hw
  rcases (Demands.mem_of_get?_gather hset).1 hcandidate with
    ⟨es, hes, e, he, edge, hedge, rfl⟩ | ⟨k, -, -, -, rfl⟩
  · obtain ⟨edge', hedge', rfl, hfollows⟩ := (Live.mem_of_get?_incoming hwalk hes).1 he
    obtain rfl := Option.some.inj (hedge.symm.trans hedge')
    rw [version?_ofEdge hb hguides hwalk hedge hfollows] at hversion
    rcases hfollows with hroot | ⟨c, hc, hout, -⟩
    · obtain ⟨id, v, hv, hdependency⟩ := h.pin_of_rootEdge hb hroot hedge
      left
      unfold Edge.query at hversion
      unfold Edge.target
      rw [hdependency] at hversion ⊢
      rw [← hversion]
      exact hv.trans (h.answered id v hv).symm
    · right
      refine ⟨c, hc, _, hb.requests_of_outgoing hout hedge, ?_, rfl, hversion⟩
      unfold Demands.ofEdge at hkind
      dsimp only at hkind
      split at hkind
      · next hforced => exact hforced
      · split at hkind <;> cases hkind
  · unfold Demands.ofConstraint at hkind
    dsimp only at hkind
    split at hkind <;> cases hkind

end

/-! ## Rounds -/

/-- A version on record that counts as the pin is the pin. -/
theorem eq_of_recorded {id : ModuleId} {v : String} (hv : V id = some v) {w : String}
    (hw : ∃ n, b.graph.node? (id.atVersion w) = some n) (hsame : order.same w v = true) :
    w = v := by
  obtain ⟨n, hn⟩ := hw
  obtain ⟨q, hid, hanswer, -⟩ := hb.tells (CandidateGraph.finding?_eq_some_iff.2 ⟨n, hn, rfl⟩)
  exact h.named id v hv q w hid hanswer hsame

theorem exists_descriptor (hsteady : t.provider.Steady) {id : ModuleId} {v : String}
    (hv : V id = some v) : ∃ d, b.graph.descriptor? (id.atVersion v) = some d := by
  obtain ⟨d, htells⟩ := h.told id v hv
  exact ⟨d, hb.descriptor?_eq hsteady (h.reached hb hv) htells⟩

variable {r : Rounds} (hr : r.Provided b.graph) (hwalk : walk b.graph r.guide = some live)

include hr hwalk

theorem eq_of_same {id : ModuleId} {v w : String} (hv : V id = some v)
    {set : SortedSet Candidate}
    (hset : (r.gathered b.graph t.constraints live).get? id = some set)
    (hw : w ∈ Choice.forcedVersions set) (hsame : order.same w v = true) : w = v := by
  obtain ⟨c, hc, -, hversion⟩ := Choice.mem_forcedVersions.1 hw
  exact h.eq_of_recorded hb hv
    ((Rounds.settled_demands hb.coverage hr hwalk hset hc).recorded w hversion) hsame

/-- All forced edges have their say in a round, besides what is remembered, and the pin is among
what they call for. -/
theorem exists_forced {id : ModuleId} {v : String} (hv : V id = some v) :
    ∃ fresh set, (Demands.gather b.graph live r.guide t.constraints).get? id = some fresh ∧
      (r.gathered b.graph t.constraints live).get? id = some set ∧
      v ∈ Choice.forcedVersions fresh ∧
      ∀ w ∈ Choice.forcedVersions fresh, w ∈ Choice.forcedVersions set := by
  obtain ⟨fresh, hfresh, hpinned⟩ := h.exists_pinned hb hr.guides hwalk t.constraints hv
  refine ⟨fresh, (r.recalled id).union fresh, hfresh, ?_, hpinned, fun w hw => ?_⟩
  · rw [Rounds.get?_demands, hfresh, Option.map_some]
  · obtain ⟨c, hc, hkind, hversion⟩ := Choice.mem_forcedVersions.1 hw
    exact Choice.mem_forcedVersions.2 ⟨c, SortedSet.mem_union.2 (Or.inr hc), hkind, hversion⟩

/-- Where no live version forces a pinned module further up, its pin is chosen. -/
theorem exists_select (horder : order.Oriented) (hnone : r.remembered = none) {id : ModuleId}
    {v : String} (hv : V id = some v)
    (hbelow : ∀ c ∈ live.nodes, ∀ w, t.Forces c id w → order.compare w v ≠ .gt) :
    ∃ set, (r.gathered b.graph t.constraints live).get? id = some set ∧
      (Choice.select order b.graph id set).version = some v ∧
      (Choice.select order b.graph id set).reason = .forced ∧
      ((∀ c ∈ live.nodes, ∀ w, t.Forces c id w → w = v) →
        (Choice.select order b.graph id set).error = none) := by
  have hgathered : r.gathered b.graph t.constraints live =
      .gather b.graph live r.guide t.constraints := by
    unfold Rounds.gathered Rounds.demands
    rw [hnone]
  obtain ⟨set, hset, hpinned⟩ := h.exists_pinned hb hr.guides hwalk t.constraints hv
  rw [← hgathered] at hset
  have hsame := fun w hw => h.eq_of_same hb hr hwalk (w := w) hv hset hw
  have horigin : ∀ w ∈ Choice.forcedVersions set, w = v ∨ ∃ c ∈ live.nodes, t.Forces c id w := by
    intro w hw
    refine (h.origin_of_forced hb hr.guides hwalk (hgathered ▸ hset) hw).imp_left fun hpin => ?_
    exact Option.some.inj (hpin.symm.trans hv)
  have hreach : ∀ w ∈ Choice.forcedVersions set, order.compare w v ≠ .gt := by
    intro w hw
    rcases horigin w hw with rfl | ⟨c, hc, hforces⟩
    · rw [beq_iff_eq.1 (horder.same_self w)]
      decide
    · exact hbelow c hc w hforces
  obtain ⟨hversion, hreason, herror⟩ := Choice.select_eq_of_forced horder hpinned hsame hreach
  refine ⟨set, hset, hversion, hreason, fun hall => herror fun w hw => ?_⟩
  exact (horigin w hw).elim (fun heq => heq) fun ⟨c, hc, hforces⟩ => hall c hc w hforces

end Task.Pins

/-- A resolution without errors that selects exactly these versions, by force. -/
structure Resolution.Keeps (res : Resolution) (V : ModuleId → Option String) : Prop where
  errors : res.errors = []
  versions : ∀ id, res.versionOf? id = V id
  reasons : ∀ id s, res.selections.get? id = some s → s.reason = .forced

/-- A round that selects the version of each module demanded by force, without an error, and with
metadata. -/
theorem Resolution.keeps_ofRound {order : VersionOrder} {g : CandidateGraph} {demands : Demands}
    {V : ModuleId → Option String} (live : Live)
    (hdemanded : ∀ id, demands.contains id = true ↔ ∃ v, V id = some v)
    (hselect : ∀ id v set, V id = some v → demands.get? id = some set →
      (Choice.select order g id set).version = some v ∧
        (Choice.select order g id set).reason = .forced ∧
        (Choice.select order g id set).error = none)
    (hdescriptor : ∀ id v, V id = some v → ∃ d, g.descriptor? (id.atVersion v) = some d) :
    (Resolution.ofRound order g live (.ofDemands order g demands)).Keeps V := by
  have hselected : ∀ id v, V id = some v →
      ∃ s, (Round.ofDemands order g demands).selections.get? id = some s ∧ s.version = v := by
    intro id v hv
    obtain ⟨set, hset⟩ := SortedMap.contains_iff.1 ((hdemanded id).2 ⟨v, hv⟩)
    obtain ⟨hversion, -⟩ := hselect id v set hv hset
    obtain ⟨s, hs⟩ := Option.isSome_iff_exists.1
      (Round.choose_snd_isSome_iff.trans (Option.isSome_iff_exists.2 ⟨v, hversion⟩))
    refine ⟨s, ?_, Option.some.inj ((Round.of_choose_eq hs).1.symm.trans hversion)⟩
    rw [Round.get?_selections, hset]
    exact hs
  have hpinned : ∀ id set, demands.get? id = some set → ∃ v, V id = some v :=
    fun id set hset => (hdemanded id).1 (SortedMap.contains_iff.2 ⟨set, hset⟩)
  constructor
  case errors =>
    refine List.eq_nil_iff_forall_not_mem.2 fun err herr => ?_
    obtain ⟨id, set, hset, herr⟩ := Round.mem_errors.1 herr
    obtain ⟨v, hv⟩ := hpinned id set hset
    obtain ⟨hversion, -, herror⟩ := hselect id v set hv hset
    obtain ⟨d, hd⟩ := hdescriptor id v hv
    rw [Round.choose_fst_eq hversion, herror, Round.missing_eq_none hd] at herr
    cases herr
  case versions =>
    intro id
    cases hv : V id with
    | some v =>
        obtain ⟨s, hs, rfl⟩ := hselected id v hv
        exact Option.map_eq_some_iff.2 ⟨s, hs, rfl⟩
    | none =>
        refine Option.map_eq_none_iff.2 (Option.eq_none_iff_forall_ne_some.2 fun s hs => ?_)
        obtain ⟨set, hset, -⟩ := Round.exists_demands_of_selected hs
        obtain ⟨v, hv'⟩ := hpinned id set hset
        rw [hv] at hv'
        cases hv'
  case reasons =>
    intro id s hs
    obtain ⟨set, hset, hs⟩ := Round.exists_demands_of_selected hs
    obtain ⟨v, hv⟩ := hpinned id set hset
    exact (Round.of_choose_eq hs).2.1.trans (hselect id v set hv hset).2.1

namespace Task.Pins

variable {t : Task} {order : VersionOrder} {V : ModuleId → Option String} {X : Exclusions}
  {b : Builder} (h : t.Pins order V X) (hb : t.Finished b) (hsteady : t.provider.Steady)
  (horder : order.Oriented)

include h hb horder

/-- The first round comes to a guide to the pinned versions, unless there are none. -/
theorem exists_guided (hunopposed : t.Unopposed V) (hunraised : t.Unraised order V X) :
    (∀ id, V id = none) ∨ ∃ next,
      Rounds.step order b.graph t.constraints {} = some (.again next) ∧
        next.remembered = none ∧ next.guide.Pinned V := by
  obtain ⟨live, hwalk⟩ := Option.isSome_iff_exists.1 (walk_isSome b.graph ({} : Rounds).guide)
  have hchosen : ∀ id v, V id = some v → (Round.ofDemands order b.graph
      (({} : Rounds).gathered b.graph t.constraints live)).guide.get? id = some v := by
    intro id v hv
    obtain ⟨set, hset, hversion, -⟩ :=
      h.exists_select hb (Rounds.provided_first b.graph) hwalk horder rfl hv fun c hlive w hw => by
        by_cases hc : V c.id = some c.version
        · rw [hunopposed c id v w hc hv hw, beq_iff_eq.1 (horder.same_self v)]
          decide
        · exact hunraised c id v w (h.drawn_of_live hb (fun _ => rfl) hwalk hlive) hc hv hw
    obtain ⟨s, hs⟩ := Option.isSome_iff_exists.1
      (Round.choose_snd_isSome_iff.trans (Option.isSome_iff_exists.2 ⟨v, hversion⟩))
    rw [Round.get?_guide, Round.get?_selections, hset, Option.bind_some, hs, Option.map_some,
      Option.some.inj ((Round.of_choose_eq hs).1.symm.trans hversion)]
  by_cases hempty : ∀ id, V id = none
  · exact Or.inl hempty
  · right
    rw [Rounds.step_eq order b.graph t.constraints {} hwalk, if_neg]
    · exact ⟨_, rfl, rfl, hchosen⟩
    · rintro ⟨hguided, -⟩
      refine hempty fun id => ?_
      cases hv : V id with
      | none => rfl
      | some v =>
          have hguide := hchosen id v hv
          rw [hguided, SortedMap.get?_filter] at hguide
          cases hguide

include hsteady

/-- A round under a guide to the pinned versions is the last one. -/
theorem exists_settled {r : Rounds} (hr : r.Provided b.graph) (hnone : r.remembered = none)
    (hguide : r.guide.Pinned V) (hunopposed : t.Unopposed V) :
    ∃ live round, r.step order b.graph t.constraints = some (.settled live round) ∧
      (Resolution.ofRound order b.graph live round).Keeps V := by
  obtain ⟨live, hwalk⟩ := Option.isSome_iff_exists.1 (walk_isSome b.graph r.guide)
  have hdemanded : ∀ id, (r.gathered b.graph t.constraints live).contains id = true ↔
      ∃ v, V id = some v := by
    intro id
    rw [Rounds.contains_gathered]
    exact h.contains_incoming hb hguide hwalk
  have hkeeps : (Resolution.ofRound order b.graph live (Round.ofDemands order b.graph
      (r.gathered b.graph t.constraints live))).Keeps V := by
    refine Resolution.keeps_ofRound live hdemanded ?_
      fun id v hv => h.exists_descriptor hb hsteady hv
    intro id v set hv hset
    have hforces : ∀ c ∈ live.nodes, ∀ w, t.Forces c id w → w = v := by
      intro c hc w hforces
      exact hunopposed c id v w ((h.mem_nodes_iff hb hguide hwalk).1 hc) hv hforces
    obtain ⟨set', hset', hversion, hreason, herror⟩ :=
      h.exists_select hb hr hwalk horder hnone hv fun c hc w hw => by
        rw [hforces c hc w hw, beq_iff_eq.1 (horder.same_self v)]
        decide
    obtain rfl := Option.some.inj (hset'.symm.trans hset)
    exact ⟨hversion, hreason, herror hforces⟩
  refine ⟨live, _, ?_, hkeeps⟩
  rw [Rounds.step_eq order b.graph t.constraints r hwalk, if_pos]
  constructor
  · refine SortedMap.ext fun id => ?_
    rw [Round.get?_guide, SortedMap.get?_filter]
    refine (hkeeps.versions id).trans ?_
    cases hv : V id with
    | some v =>
        rw [hguide id v hv, (hdemanded id).2 ⟨v, hv⟩]
        rfl
    | none =>
        have hcontains : (r.gathered b.graph t.constraints live).contains id = false := by
          refine Bool.eq_false_iff.2 fun hcontains => ?_
          obtain ⟨v, hv'⟩ := (hdemanded id).1 hcontains
          rw [hv] at hv'
          cases hv'
        rw [hcontains]
        cases r.guide.get? id <;> rfl
  · unfold Rounds.learns
    rw [hnone]

/-- The rounds keep the pinned versions. -/
theorem exists_resolve (hunopposed : t.Unopposed V) (hunraised : t.Unraised order V X) :
    ∃ res, resolve order b.graph t.constraints = some res ∧ res.Keeps V := by
  have hsettles : ∀ r : Rounds, r.Provided b.graph → r.remembered = none → r.guide.Pinned V →
      ∀ rounds, ∃ live round, r.run order b.graph t.constraints (rounds + 1) = some (live, round) ∧
        (Resolution.ofRound order b.graph live round).Keeps V := by
    intro r hr hnone hguide rounds
    obtain ⟨live, round, hstep, hkeeps⟩ :=
      h.exists_settled hb hsteady horder hr hnone hguide hunopposed
    refine ⟨live, round, ?_, hkeeps⟩
    unfold Rounds.run
    rw [hstep]
  obtain ⟨rounds, hbound⟩ : ∃ rounds, Rounds.bound b.graph t.constraints = rounds + 2 :=
    ⟨Rounds.bound b.graph t.constraints - 2, by unfold Rounds.bound; dsimp only; omega⟩
  obtain ⟨live, round, hrun, hkeeps⟩ : ∃ live round,
      Rounds.run order b.graph t.constraints (rounds + 2) {} = some (live, round) ∧
        (Resolution.ofRound order b.graph live round).Keeps V := by
    rcases h.exists_guided hb horder hunopposed hunraised with
      hempty | ⟨next, hstep, hnone, hguide⟩
    · refine hsettles {} (Rounds.provided_first b.graph) rfl ?_ (rounds + 1)
      intro id v hv
      rw [hempty id] at hv
      cases hv
    · unfold Rounds.run
      rw [hstep]
      exact hsettles next (Rounds.provided_step hb.tidy.arena.coordinates hb.coverage
        (Rounds.provided_first b.graph) hstep) hnone hguide rounds
  refine ⟨_, ?_, hkeeps⟩
  unfold resolve
  rw [hbound, hrun]
  rfl

/-- Rounds that come to the pinned versions without errors have met nothing opposed to them. -/
theorem keeps_of_settles {r : Rounds} {live : Live} {round : Round} (hr : r.Provided b.graph)
    (hsettles : r.Settles order b.graph t.constraints live round)
    (hversions : ∀ id, (Resolution.ofRound order b.graph live round).versionOf? id = V id) :
    (Resolution.ofRound order b.graph live round).Keeps V ∧ t.Unopposed V := by
  have hwalk := hsettles.walked
  have hselection : ∀ id v, V id = some v →
      ∃ s, round.selections.get? id = some s ∧ s.version = v := by
    intro id v hv
    rw [← hversions] at hv
    exact Option.map_eq_some_iff.1 hv
  have hguide : r.guide.Pinned V := by
    intro id v hv
    obtain ⟨s, hs, rfl⟩ := hselection id v hv
    obtain ⟨es, hes⟩ := hsettles.exists_incoming hs
    obtain ⟨s', hs', hguided, -⟩ := hsettles.exists_selected hes
    obtain rfl := Option.some.inj (hs.symm.trans hs')
    exact hguided
  have herrors := hsettles.no_errors
  rw [hsettles.chosen] at herrors
  refine ⟨⟨hsettles.no_errors, hversions, ?_⟩, ?_⟩
  · intro id s hs
    have hv : V id = some s.version := by
      rw [← hversions]
      exact Option.map_eq_some_iff.2 ⟨s, hs, rfl⟩
    obtain ⟨fresh, set, -, hset, hpinned, hmore⟩ := h.exists_forced hb hr hwalk hv
    obtain ⟨s', hs', hchoose, -⟩ := Round.selected_of_no_errors herrors hset
    rw [← hsettles.chosen] at hs'
    obtain rfl := Option.some.inj (hs'.symm.trans hs)
    obtain ⟨hversion, hreason, -⟩ := Round.of_choose_eq hchoose
    rw [hreason]
    exact Choice.reason_of_forced (hmore _ hpinned) hversion
  · rintro c id v w hc hv ⟨request, hrequest, hforces, rfl, hanswer⟩
    obtain ⟨fresh, set, hfresh, hset, hpinned, hmore⟩ := h.exists_forced hb hr hwalk hv
    obtain ⟨e, edge, hedge, hfollows, hdependency⟩ :=
      h.exists_follows hb hguide hwalk hsteady hc hrequest hv
    have hw : w ∈ Choice.forcedVersions fresh := by
      rw [← hdependency] at hforces hanswer hfresh
      exact mem_forcedVersions_of_follows hb hr.guides hwalk hedge hfollows hforces hanswer hfresh
    obtain ⟨-, -, -, herror, -⟩ := Round.selected_of_no_errors herrors hset
    obtain ⟨u, hu, huv, huw⟩ := Choice.same_of_forced (hmore v hpinned) (hmore w hw) herror
    obtain rfl : u = v :=
      huv.elim (fun heq => heq) fun hsame => h.eq_of_same hb hr hwalk hv hset hu hsame
    refine huw.elim Eq.symm fun hsame => h.eq_of_same hb hr hwalk hv hset (hmore w hw) ?_
    rw [horder.same_comm]
    exact hsame

theorem keeps_of_resolve {res : Resolution} (hres : resolve order b.graph t.constraints = some res)
    (herrors : res.errors = []) (hversions : ∀ id, res.versionOf? id = V id) :
    res.Keeps V ∧ t.Unopposed V := by
  obtain ⟨rounds, live, round, hrun, rfl⟩ := CandidateGraph.resolvesTo_of_resolve hres
  obtain ⟨r, hreached, hsettles⟩ := Rounds.exists_settles hrun herrors
  exact h.keeps_of_settles hb hsteady horder
    (Rounds.provided_of_reached hb.tidy.arena.coordinates hb.coverage hreached) hsettles hversions

end Task.Pins

end Lockstep
