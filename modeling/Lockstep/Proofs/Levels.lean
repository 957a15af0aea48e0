import Lockstep.Proofs.Counting
import Lockstep.Proofs.Scope
import Mathlib.Tactic.Ring

/-!
# Levels suffice

A finite budget of queries and exclusions bounds a task. A level that leaves
something in the queue has expanded a version, probed a query, or shrunk the
exclusions of a module, and each of these takes from what is left of the budget
(`Task.slack`). So the builder comes to an end (`Task.exists_run_eq`).
-/

namespace Lockstep

namespace Task

open Builder

/-- All queries and exclusions that can come up. -/
structure Budget (t : Task) (U : SortedSet Query) (E : Exclusions) : Prop where
  root : ∀ d ∈ t.dependencies, d.target ≠ t.root.id →
    ⟨d.target, d.requirement⟩ ∈ U ∧ d.exclusions ⊆ E
  onward : ∀ c r, t.Requests c r → ⟨r.1.target, r.1.requirement⟩ ∈ U ∧ r.1.exclusions ⊆ E
  constrained : ∀ q, q ∈ t.declared ∨ (∃ c, t.Constrains c q) → q ∈ U

variable {t : Task} {U : SortedSet Query} {E : Exclusions} {b : Builder} {todo rest : List Arrival}
  {declared : List Query} {dependencies : List (Dependency × Bool)}

/-! ## What a budget allows -/

/-- The modules that queries are about. -/
def targets (U : SortedSet Query) : SortedSet ModuleId :=
  .ofList (U.toList.map Query.target)

/-- The versions that queries come to. -/
def versions (t : Task) (U : SortedSet Query) : SortedSet Coordinates :=
  .ofList (U.toList.filterMap fun q => (t.provider.answer? q).map q.target.atVersion)

theorem mem_targets {id : ModuleId} : id ∈ targets U ↔ ∃ q ∈ U, q.target = id := by
  unfold targets
  rw [SortedSet.mem_ofList, List.mem_map]
  rfl

theorem mem_versions {c : Coordinates} :
    c ∈ t.versions U ↔ ∃ q ∈ U, q.target = c.id ∧ t.provider.answer? q = some c.version := by
  unfold versions
  rw [SortedSet.mem_ofList, List.mem_filterMap]
  refine exists_congr fun q => and_congr_right fun _ => ?_
  rw [Option.map_eq_some_iff]
  constructor
  · rintro ⟨v, hv, rfl⟩
    exact ⟨rfl, hv⟩
  · rintro ⟨hid, hv⟩
    refine ⟨c.version, hv, ?_⟩
    rw [hid]
    rfl

theorem size_targets_le (U : SortedSet Query) : (targets U).size ≤ U.size :=
  (SortedSet.size_ofList_le _).trans (Nat.le_of_eq (List.length_map _))

theorem size_versions_le (t : Task) (U : SortedSet Query) : (t.versions U).size ≤ U.size :=
  (SortedSet.size_ofList_le _).trans (List.length_filterMap_le _ _)

/-- The scope of all that the budget allows. -/
def allowed (t : Task) (U : SortedSet Query) : Scope :=
  ⟨⟨(· ∈ t.versions U), fun id => if id ∈ targets U then some ∅ else none⟩, (· ∈ U)⟩

theorem Budget.closed_allowed (h : t.Budget U E) : t.Closed (t.allowed U) := by
  have hlooked : ∀ q ∈ U, (t.allowed U).Looked t.provider q :=
    fun q hq => ⟨hq, fun v hv => mem_versions.2 ⟨q, hq, rfl, hv⟩⟩
  have hmeets : ∀ (d : Dependency) (inherited : Exclusions), ⟨d.target, d.requirement⟩ ∈ U →
      (t.allowed U).Meets t.provider d inherited := by
    intro d inherited hq
    refine ⟨hq, ∅, if_pos (mem_targets.2 ⟨_, hq, rfl⟩), ?_, (hlooked _ hq).nodes⟩
    exact fun a ha => absurd ha (SortedSet.not_mem_empty a)
  constructor
  case root => exact fun d hd hne => hmeets d _ (h.root d hd hne).1
  case onward => exact fun c _ set _ r hr _ => hmeets r.1 _ (h.onward c r hr).1
  case constrained =>
    intro q hq set _
    exact hlooked q (h.constrained q (hq.imp_right fun ⟨c, _, hc⟩ => ⟨c, hc⟩))

/-- No exclusions but those of the budget come up. -/
structure Limited (E : Exclusions) (todo : List Arrival) (b : Builder) : Prop where
  exclusions : ∀ id set, b.exclusions.get? id = some set → set ⊆ E
  edges : ∀ e edge, b.graph.edge? e = some edge → edge.dependency.exclusions ⊆ E
  awaited : ∀ e inherited, Awaits todo b (.edge e inherited) → inherited ⊆ E

/-! ## What is left -/

/-- How often the exclusions of a module may still change. -/
def room (E : Exclusions) : Option Exclusions → Nat
  | none => E.size + 1
  | some set => set.size

/-- How often anything may still happen that fills the queue. -/
def slack (t : Task) (U : SortedSet Query) (E : Exclusions) (b : Builder) : Nat :=
  ((t.versions U).size - b.expanded.size) + (U.size - b.probed.size) +
    ((targets U).toList.map fun id => room E (b.exclusions.get? id)).sum

/-- What is left once what is queued has been paid for. -/
def cost (t : Task) (U : SortedSet Query) (E : Exclusions) (b : Builder) : Nat :=
  t.slack U E b + if b.queue.isEmpty then 0 else 1

theorem cost_le (t : Task) (U : SortedSet Query) (E : Exclusions) (b : Builder) :
    t.cost U E b ≤ t.slack U E b + 1 := by
  unfold cost
  split <;> omega

/-- Exclusions that change leave less room for further changes. -/
theorem slack_revisit_lt {e : EdgeId} {edge : Edge} {incoming : Exclusions}
    (htarget : edge.target ∈ targets U) (hincoming : incoming ⊆ E)
    (hchange : b.exclusions.get? edge.target ≠
      some (.shared (b.exclusions.get? edge.target) incoming)) :
    t.slack U E (b.revisit e edge incoming) < t.slack U E b := by
  have hroom : room E (some (.shared (b.exclusions.get? edge.target) incoming)) <
      room E (b.exclusions.get? edge.target) := by
    cases hbefore : b.exclusions.get? edge.target with
    | none => exact Nat.lt_succ_of_le (SortedSet.size_le_of_subset hincoming)
    | some set =>
        rw [hbefore] at hchange
        refine SortedSet.size_lt_of_subset (Exclusions.shared_subset_before rfl incoming) ?_
        exact fun heq => hchange (congrArg some heq.symm)
  refine Nat.add_lt_add_left (List.sum_lt_sum _ _ ?_ ⟨edge.target, htarget, ?_⟩) _
  · intro id _
    rw [get?_exclusions_revisit]
    split
    · next hid =>
      rw [hid]
      exact Nat.le_of_lt hroom
    · exact Nat.le_refl _
  · rw [get?_exclusions_revisit, if_pos rfl]
    exact hroom

theorem cost_revisit_le {e : EdgeId} {edge : Edge} {incoming : Exclusions}
    (htarget : edge.target ∈ targets U) (hincoming : incoming ⊆ E) :
    t.cost U E (b.revisit e edge incoming) ≤ t.cost U E b := by
  by_cases hchange : b.exclusions.get? edge.target =
      some (.shared (b.exclusions.get? edge.target) incoming)
  · refine Nat.le_of_eq ?_
    have hexclusions : (b.revisit e edge incoming).exclusions = b.exclusions :=
      SortedMap.insert_eq_self hchange
    have hqueue : (b.revisit e edge incoming).queue = b.queue := by
      unfold revisit again
      rw [if_neg (not_not_intro hchange)]
      exact List.append_nil _
    unfold cost slack
    rw [hexclusions, hqueue]
    rfl
  · have hlt := slack_revisit_lt (t := t) (e := e) htarget hincoming hchange
    have hle := cost_le t U E (b.revisit e edge incoming)
    have hslack : t.slack U E b ≤ t.cost U E b := Nat.le_add_right _ _
    omega

/-- A version that is expanded is taken from those that are left. -/
theorem cost_expandAnswer_le {q : Query}
    (h : ∀ c ∈ (b.expandAnswer t.rules q).expanded, c ∈ t.versions U) :
    t.cost U E (b.expandAnswer t.rules q) ≤ t.cost U E b := by
  rcases exists_expandAnswer_eq t.rules b q with heq | ⟨v, -, hnew, queue, heq⟩
  · rw [heq]
  · have hexpanded : (b.expandAnswer t.rules q).expanded =
        b.expanded.insert (q.target.atVersion v) := by rw [heq]
    have hgrows : b.expanded.size < (b.expandAnswer t.rules q).expanded.size := by
      rw [hexpanded]
      refine SortedSet.size_lt_of_subset ?_ ?_
      · exact fun c' hc' => SortedSet.mem_insert.2 (Or.inr hc')
      · intro hsame
        rw [hsame] at hnew
        exact hnew (SortedSet.mem_insert.2 (Or.inl rfl))
    have hbound : (b.expandAnswer t.rules q).expanded.size ≤ (t.versions U).size :=
      SortedSet.size_le_of_subset h
    have hlt : t.slack U E (b.expandAnswer t.rules q) < t.slack U E b := by
      unfold slack
      rw [exclusions_expandAnswer, probed_expandAnswer]
      omega
    have hslack : t.slack U E b ≤ t.cost U E b := Nat.le_add_right _ _
    exact (cost_le t U E _).trans (Nat.le_trans hlt hslack)

theorem cost_probes_le (h : ∀ q ∈ b.probes.probed, q ∈ U) :
    t.cost U E b.probes ≤ t.cost U E b := by
  obtain ⟨new, heq, hnew, -⟩ := probes_eq b
  cases new with
  | nil =>
      rw [heq]
      exact Nat.le_of_eq (by simp [cost, slack, SortedSet.insertAll])
  | cons q rest =>
      have hgrows : b.probed.size < b.probes.probed.size := by
        refine SortedSet.size_lt_of_subset ?_ ?_
        · rw [heq]
          exact fun q' hq' => SortedSet.mem_of_mem_insertAll hq'
        · intro hsame
          refine (hnew q List.mem_cons_self).2.2 ?_
          rw [hsame, heq]
          exact SortedSet.mem_insertAll.2 (Or.inl List.mem_cons_self)
      have hbound : b.probes.probed.size ≤ U.size := SortedSet.size_le_of_subset h
      have hlt : t.slack U E b.probes < t.slack U E b := by
        unfold slack
        rw [expanded_probes, exclusions_probes]
        omega
      have hslack : t.slack U E b ≤ t.cost U E b := Nat.le_add_right _ _
      exact (cost_le t U E _).trans (Nat.le_trans hlt hslack)

/-! ## Steps stay within the budget -/

theorem union_subset {s s' : Exclusions} (h : s ⊆ E) (h' : s' ⊆ E) : s.union s' ⊆ E :=
  fun a ha => (SortedSet.mem_union.1 ha).elim (h a) (h' a)

theorem limited_revisit (h : Limited E todo b) (e : EdgeId) (edge : Edge) {incoming : Exclusions}
    (hincoming : incoming ⊆ E) : Limited E todo (b.revisit e edge incoming) := by
  have hshared := SortedSet.Subset.trans
    (Exclusions.shared_subset_inherited (b.exclusions.get? edge.target) incoming) hincoming
  have hedges : ∀ e' edge', (b.revisit e edge incoming).graph.edge? e' = some edge' →
      edge'.dependency.exclusions ⊆ E := by
    intro e' edge' hedge'
    obtain ⟨before, resolved, hbefore, rfl⟩ := CandidateGraph.exists_of_edge?_setResolved hedge'
    exact h.edges e' before hbefore
  constructor
  case exclusions =>
    intro id set hset
    rw [get?_exclusions_revisit] at hset
    split at hset
    · rw [← Option.some.inj hset]
      exact hshared
    · exact h.exclusions id set hset
  case edges => exact hedges
  case awaited =>
    intro e' inherited ha
    rcases awaits_revisit_iff.1 ha with ha | ⟨c, -, ha⟩
    · exact h.awaited e' inherited ha
    · obtain ⟨e'', edge', -, hedge', -, heq⟩ := mem_arrivals.1 ha
      obtain ⟨rfl, rfl⟩ := Arrival.edge.inj heq
      exact union_subset hshared (hedges e' edge' hedge')

theorem limited_expandAnswer (hbudget : t.Budget U E) (h : Limited E todo b)
    (hwithin : t.Within (t.allowed U) todo b) {q : Query}
    (hreached : ∃ set, b.exclusions.get? q.target = some set) :
    Limited E todo (b.expandAnswer t.rules q) := by
  rcases expandAnswer_eq_or t.rules b q with ⟨heq, -⟩ | ⟨v, -, hnew, heq⟩
  · rw [heq]
    exact h
  · obtain ⟨set, hset⟩ := hreached
    rw [heq, expandNew_eq hnew hset]
    have hedges : ∀ e edge,
        (b.graph.withEdgesOf t.rules (q.target.atVersion v)).edge? e = some edge →
        edge.dependency.exclusions ⊆ E := by
      intro e edge hedge
      rcases CandidateGraph.edge?_or_newEdge_of_edge?_withEdgesOf hedge with hold | ⟨r, hr, rfl⟩
      · exact h.edges e edge hold
      · exact (hbudget.onward _ r (hwithin.requests hr)).2
    constructor
    case exclusions => exact h.exclusions
    case edges => exact hedges
    case awaited =>
      intro e inherited ha
      rcases (awaits_append_iff rfl).1 ha with ha | ha
      · exact h.awaited e inherited ha
      · obtain ⟨e', edge, -, hedge, -, heq⟩ := mem_arrivals.1 ha
        obtain ⟨rfl, rfl⟩ := Arrival.edge.inj heq
        exact union_subset (h.exclusions _ set hset) (hedges e edge hedge)

/-- A builder that keeps to its budget, of which this much was left. -/
structure Solvent (t : Task) (U : SortedSet Query) (E : Exclusions) (left : Nat)
    (todo : List Arrival) (b : Builder) : Prop where
  within : t.Within (t.allowed U) todo b
  limited : Limited E todo b
  probed : ∀ q ∈ b.probed, q ∈ U
  cost : t.cost U E b ≤ left

theorem Solvent.drop {left : Nat} {a : Arrival} (h : t.Solvent U E left (a :: rest) b) :
    t.Solvent U E left rest b :=
  ⟨h.within.drop, ⟨h.limited.exclusions, h.limited.edges,
    fun e inherited ha => h.limited.awaited e inherited (ha.imp_left (List.mem_cons_of_mem a))⟩,
    h.probed, h.cost⟩

theorem solvent_expandAnswer (hbudget : t.Budget U E) {left : Nat}
    (harena : b.graph.Arena t.rules dependencies b.expanded)
    (hqueued : ∀ a, Awaits todo b a → ∃ q, b.query? a = some q) (h : t.Solvent U E left todo b)
    {q : Query} (hreached : ∃ set, b.exclusions.get? q.target = some set) (hq : q ∈ U) :
    t.Solvent U E left todo (b.expandAnswer t.rules q) := by
  have hlooked : (t.allowed U).Looked t.provider q :=
    ⟨hq, fun v hv => mem_versions.2 ⟨q, hq, rfl, hv⟩⟩
  have hwithin := within_expandAnswer hbudget.closed_allowed harena hqueued h.within hreached
    hlooked
  refine ⟨hwithin, limited_expandAnswer hbudget h.limited h.within hreached, ?_,
    (cost_expandAnswer_le hwithin.region.nodes).trans h.cost⟩
  rw [probed_expandAnswer]
  exact h.probed

theorem solvent_process (hbudget : t.Budget U E) {left : Nat}
    (harena : b.graph.Arena t.rules dependencies b.expanded) {a : Arrival}
    (howed : Owed declared (a :: rest) b) (h : t.Solvent U E left (a :: rest) b) :
    t.Solvent U E left rest (b.process t.rules a) := by
  cases a with
  | probe q =>
      rw [process_probe]
      have hawaits : Awaits (.probe q :: rest) b (.probe q) := Or.inl List.mem_cons_self
      exact (solvent_expandAnswer hbudget harena howed.queued h (howed.probes q hawaits)
        (h.within.probes q hawaits).asked).drop
  | edge e incoming =>
      have hawaits : Awaits (.edge e incoming :: rest) b (.edge e incoming) :=
        Or.inl List.mem_cons_self
      obtain ⟨edge, hedge⟩ := howed.exists_edge
      rw [process_edge harena.coordinates hedge]
      have hmeets := h.within.edges e incoming hawaits edge hedge
      have hincoming := h.limited.awaited e incoming hawaits
      have hrevisit : t.Solvent U E left (.edge e incoming :: rest) (b.revisit e edge incoming) :=
        ⟨within_revisit hbudget.closed_allowed harena h.within e hmeets,
          limited_revisit h.limited e edge hincoming, h.probed,
          (cost_revisit_le (mem_targets.2 ⟨_, hmeets.asked, rfl⟩) hincoming).trans h.cost⟩
      have howed' := owed_revisit harena howed hedge incoming
      have hshared := get?_exclusions_revisit_target b e edge incoming
      exact (solvent_expandAnswer hbudget (harena.setResolved e _) howed'.queued hrevisit
        ⟨_, hshared⟩ hmeets.asked).drop

theorem solvent_probes {left : Nat} (h : t.Solvent U E left [] b) :
    t.Solvent U E left [] b.probes := by
  have hwithin := within_probes h.within
  obtain ⟨new, heq, hnew, -⟩ := probes_eq b
  have hprobed : ∀ q ∈ b.probes.probed, q ∈ U := by
    intro q hq
    rw [heq] at hq
    rcases SortedSet.mem_insertAll.1 hq with hq | hq
    · obtain ⟨hmem, hreached, -⟩ := hnew q hq
      obtain ⟨set, hset⟩ := SortedMap.contains_iff.1 hreached
      obtain ⟨shared, hshared, -⟩ := h.within.region.exclusions _ set hset
      exact (h.within.constrained q hmem shared hshared).asked
    · exact h.probed q hq
  refine ⟨hwithin, ?_, hprobed, (cost_probes_le hprobed).trans h.cost⟩
  rw [heq]
  refine ⟨h.limited.exclusions, h.limited.edges, fun e inherited ha => ?_⟩
  exact h.limited.awaited e inherited (((awaits_append_iff rfl).1 ha).resolve_right (by simp))

/-- A level uses up at least one of what is left, if it leaves anything to do. -/
theorem solvent_levelWith (hbudget : t.Budget U E) {left : Nat}
    (htidy : Tidy t.rules dependencies t.declared b) (h : t.Solvent U E left [] b) :
    t.Solvent U E (t.slack U E b) [] (b.levelWith t.rules t.provider) := by
  refine (levelWith_induction t.provider (Q := t.Solvent U E (t.slack U E b)) ?_ ?_ ?_ htidy ?_).2
  · intro b' q hq _ hb'
    obtain ⟨a, ha, hqa⟩ := hq
    refine ⟨within_record hb'.within ⟨a, Or.inl ha, hqa⟩, ⟨hb'.limited.exclusions, ?_,
      hb'.limited.awaited⟩, hb'.probed, hb'.cost⟩
    intro e edge hedge
    refine hb'.limited.edges e edge ?_
    rw [← hedge]
    exact (CandidateGraph.edge?_record b'.graph q _ e).symm
  · exact fun a rest b' harena howed _ hb' => solvent_process hbudget harena howed hb'
  · exact fun b' hb' => solvent_probes hb'
  · exact ⟨h.within.begin, ⟨h.limited.exclusions, h.limited.edges,
      fun e _ ha => h.limited.awaited e _ (awaits_begin_iff.1 ha)⟩, h.probed, Nat.le_refl _⟩

/-! ## The end -/

theorem level_lookup (t : Task) (b : Builder) (s : Unit) :
    (b.level t.provider.lookup t.rules).run s = (b.levelWith t.rules t.provider, s) := by
  obtain ⟨answers, s', hrun, hanswers⟩ :=
    lookUp_eq t.provider.lookup b.wanted.nodup_toList b s
  have heq : ∀ q ∈ b.wanted.toList, answers q = t.provider q := by
    intro q hq
    obtain ⟨s, hs⟩ := hanswers q hq
    exact hs
  rw [level_eq, hrun, recordAll_congr heq]
  rfl

theorem exists_run_eq_of_solvent (hbudget : t.Budget U E) {levels left : Nat}
    (htidy : Tidy t.rules dependencies t.declared b) (h : t.Solvent U E left [] b)
    (hlevels : b.queue = [] ∨ t.slack U E b < levels) (s : Unit) :
    ∃ g, (b.run t.provider.lookup t.rules levels).run s = (some g, s) := by
  induction levels generalizing b left with
  | zero =>
      have hdone : b.queue.isEmpty = true :=
        List.isEmpty_iff.2 (hlevels.resolve_right (Nat.not_lt_zero _))
      exact ⟨b.graph, run_of_isEmpty _ _ _ _ hdone⟩
  | succ levels ih =>
      cases hempty : b.queue.isEmpty with
      | true => exact ⟨b.graph, run_of_isEmpty _ _ _ _ hempty⟩
      | false =>
          have hslack := hlevels.resolve_left fun hdone => by
            rw [List.isEmpty_iff.2 hdone] at hempty
            cases hempty
          have hnext := solvent_levelWith hbudget htidy h
          obtain ⟨g, hg⟩ := ih (tidy_levelWith t.provider htidy) hnext (by
            have hcost := hnext.cost
            unfold cost at hcost
            split at hcost
            · next hdone => exact Or.inl (List.isEmpty_iff.1 hdone)
            · right
              omega)
          refine ⟨g, ?_⟩
          rw [run_succ _ _ _ _ hempty, level_lookup]
          exact hg

/-- A task within a budget comes to an end. -/
theorem exists_run_eq (hbudget : t.Budget U E) {levels : Nat}
    (hlevels : U.size * (E.size + 3) < levels) (s : Unit) :
    ∃ g, (t.start.run t.provider.lookup t.rules levels).run s = (some g, s) := by
  have htidy := tidy_start t.rules t.root t.dependencies t.constraints
  have hslack : t.slack U E t.start ≤ U.size * (E.size + 3) := by
    have hrooms : ((targets U).toList.map fun id => room E (t.start.exclusions.get? id)).sum =
        (targets U).size * (E.size + 1) := by
      have hnew : ∀ id, room E (t.start.exclusions.get? id) = E.size + 1 := fun _ => rfl
      simp [hnew, SortedSet.size]
    have htargets := Nat.mul_le_mul_right (E.size + 1) (size_targets_le U)
    have hversions := size_versions_le t U
    have hsplit : U.size * (E.size + 3) = U.size * (E.size + 1) + 2 * U.size := by ring
    unfold slack
    rw [hrooms, hsplit]
    omega
  refine exists_run_eq_of_solvent hbudget htidy
    ⟨within_start hbudget.closed_allowed, ?_, ?_, Nat.le_refl (t.cost U E t.start)⟩
    (Or.inr (Nat.lt_of_le_of_lt hslack hlevels)) s
  · constructor
    case exclusions => exact fun id set hset => (by cases hset)
    case edges =>
      intro e edge hedge
      obtain ⟨d, hd, hne, rfl⟩ := exists_of_edge?_start hedge
      exact (hbudget.root d hd hne).2
    case awaited =>
      intro e inherited ha
      obtain ⟨e', edge, hedge, heq⟩ := mem_queue_start.1 (ha.resolve_left List.not_mem_nil)
      obtain ⟨rfl, rfl⟩ := Arrival.edge.inj heq
      obtain ⟨d, hd, hne, rfl⟩ := exists_of_edge?_start hedge
      exact (hbudget.root d hd hne).2
  · exact fun q hq => absurd hq (SortedSet.not_mem_empty q)

end Task

end Lockstep
