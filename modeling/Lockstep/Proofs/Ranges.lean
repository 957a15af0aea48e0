import Lockstep.Proofs.Pinning
import Lockstep.Proofs.Remembering
import Lockstep.Proofs.Supply

/-!
# Ranges

What lies between two versions of a range is in it
(`VersionRange.contains_of_between`). A range comes to the highest published
version in it, so the lowest version that several ranges come to is in all of
them, if any published version is. The builder has it on record, and choices
that know only what is on record still find the highest published version in all
ranges (`Choice.honours_of_build`).
-/

namespace Lockstep

/-! ## Ranges -/

namespace VersionRange

variable {order : VersionOrder} {r : VersionRange} {v : String}

theorem contains_iff : r.contains order v = true ↔
    (∀ b, r.lower = some b → order.compare v b.version ≠ .lt ∧
      (order.compare v b.version = .eq → b.inclusive = true)) ∧
    ∀ b, r.upper = some b → order.compare v b.version ≠ .gt ∧
      (order.compare v b.version = .eq → b.inclusive = true) := by
  unfold contains
  simp only [Bool.and_eq_true, Option.all_eq_true]
  refine and_congr (forall_congr' fun b => imp_congr_right fun _ => ?_)
    (forall_congr' fun b => imp_congr_right fun _ => ?_)
  all_goals cases order.compare v b.version <;> simp

/-- What lies between two versions in a range is in the range. -/
theorem contains_of_between (h : order.IsPreorder) {a b c : String}
    (ha : r.contains order a = true) (hc : r.contains order c = true)
    (hab : order.compare a b ≠ .gt) (hbc : order.compare b c ≠ .gt) :
    r.contains order b = true := by
  rw [contains_iff] at ha hc ⊢
  constructor
  · intro bound hbound
    obtain ⟨hnot, hincl⟩ := ha.1 bound hbound
    refine ⟨fun hlt => hnot (h.lt_of_le_of_lt trivial trivial trivial hab hlt), fun heq => hincl ?_⟩
    -- The lower version is not above the end either.
    have hle : order.compare a bound.version ≠ .gt := h.le_trans hab (by simp [heq])
    cases hcmp : order.compare a bound.version <;> simp_all
  · intro bound hbound
    obtain ⟨hnot, hincl⟩ := hc.2 bound hbound
    refine ⟨h.le_trans hbc hnot, fun heq => hincl ?_⟩
    have hge : order.compare bound.version c ≠ .gt :=
      h.le_trans (by rw [h.oriented b bound.version, heq]; simp) hbc
    rw [h.oriented c bound.version] at hge
    cases hcmp : order.compare c bound.version <;> simp_all

end VersionRange

/-! ## Answers of a catalog -/

namespace Catalog

variable {catalog : Catalog} {order : VersionOrder} {id : ModuleId} {r : VersionRange}

/-- A range comes to the highest published version in it. -/
theorem highest_of_answer? (h : order.IsPreorder) {v : String}
    (hv : (catalog.provider order).answer? ⟨id, .range r⟩ = some v) :
    order.Highest (fun w => w ∈ catalog.versions id ∧ r.contains order w = true) v ∧
      ∃ d, (catalog.provider order).Tells (id.atVersion v) (.found d) := by
  have htells := fun d => (⟨⟨id, .range r⟩, rfl, hv, · ⟩ :
    CandidateGraph.findingOf (catalog.provider order ⟨id, .range r⟩) = .found d →
      (catalog.provider order).Tells (id.atVersion v) (.found d))
  rw [Provider.answer?_eq_some_iff] at hv
  unfold provider at hv
  cases hfind : catalog.find? order ⟨id, .range r⟩ with
  | none =>
      rw [hfind] at hv
      simp [CandidateGraph.outcomeOf, Requirement.version?] at hv
  | some d =>
      rw [hfind] at hv
      obtain rfl : d.version = v := Except.ok.inj hv
      refine ⟨?_, d, htells d ?_⟩
      · unfold find? at hfind
        obtain ⟨best, hbest, hd⟩ := Option.bind_eq_some_iff.1 hfind
        have hversion := List.find?_some hd
        rw [beq_iff_eq.1 hversion]
        obtain ⟨hmem, hle⟩ := h.highest_of_maxOf (fun _ _ => trivial) hbest
        refine ⟨by simpa using hmem, fun w hw => hle w ?_⟩
        simpa using hw
      · unfold provider
        rw [hfind]
        rfl

/-- A range that comes to nothing has no published version in it. -/
theorem contains_eq_false_of_answer? (h : order.IsPreorder)
    (hnone : (catalog.provider order).answer? ⟨id, .range r⟩ = none) {v : String}
    (hv : v ∈ catalog.versions id) : r.contains order v = false := by
  obtain ⟨d, hd, rfl⟩ := List.mem_map.1 hv
  cases hfind : catalog.find? order ⟨id, .range r⟩ with
  | none => exact accepts_eq_false_of_find? h.oriented hfind hd
  | some d' =>
      have hsome : (catalog.provider order).answer? ⟨id, .range r⟩ = some d'.version := by
        rw [Provider.answer?_eq_some_iff]
        unfold provider
        rw [hfind]
        rfl
      rw [hsome] at hnone
      simp at hnone

end Catalog

/-! ## Candidates over a catalog -/

namespace Task.Finished

variable {t : Task} {b : Builder} (hb : t.Finished b) {order : VersionOrder} {id : ModuleId}
  {c : Candidate}

include hb

/-- A demand that is met came to the answer to its query, which is on record. -/
theorem answered_of_meets (h : Rounds.Meets order b.graph t.constraints id c) :
    c.version? = t.provider.answer? ⟨id, c.demand.requirement⟩ ∧ c.Settled b.graph id := by
  obtain ⟨r, live, set, hr, hwalk, hset, hc⟩ := h
  have hguides := (Rounds.provided_of_reached hb.tidy.arena.coordinates hb.coverage hr).guides
  refine ⟨?_, hb.coverage.settled_of_gather hguides hwalk hset hc⟩
  rcases (Demands.mem_of_get?_gather hset).1 hc with
    ⟨es, hes, e, he, edge, hedge, rfl⟩ | ⟨k, hk, -, rfl, rfl⟩
  · obtain ⟨edge', hedge', rfl, hfollows⟩ := (Live.mem_of_get?_incoming hwalk hes).1 he
    obtain rfl := Option.some.inj (hedge.symm.trans hedge')
    exact Task.Pins.version?_ofEdge hb hguides hwalk hedge hfollows
  · have hcontains := Demands.contains_gather b.graph live r.guide t.constraints k.target
    rw [SortedMap.contains, SortedMap.contains, hset, Option.isSome_some] at hcontains
    obtain ⟨es, hes⟩ := Option.isSome_iff_exists.1 hcontains.symm
    obtain ⟨o, ho, -⟩ := hb.coverage.asked_of_applied hguides hwalk hk hes
    rw [Demands.version?_ofConstraint, hb.answer?_eq ⟨o, ho⟩]
    rfl

/-- What a version on record has for metadata is what any answer that comes to it tells. -/
theorem descriptor?_of_tells (hsteady : t.provider.Steady) {v : String} {n : Node}
    (hn : b.graph.node? (id.atVersion v) = some n) {d : Descriptor}
    (htells : t.provider.Tells (id.atVersion v) (.found d)) :
    b.graph.descriptor? (id.atVersion v) = some d := by
  have hfinding := CandidateGraph.finding?_eq_some_iff.2 ⟨n, hn, rfl⟩
  have heq : n.finding = .found d := hsteady _ _ _ (hb.tells hfinding) htells
  unfold CandidateGraph.descriptor?
  simp [hn, heq, Finding.descriptor?]

end Task.Finished

/-! ## Choices -/

/-- An edge or a constraint, without force and more than a preference. -/
def Candidate.Plain (c : Candidate) : Prop :=
  c.demand.kind = .edge ∨ c.demand.kind = .constraint

/-- An edge that asks for a range which no version is in. -/
def Candidate.Unmatched (c : Candidate) : Prop :=
  c.demand.kind = .edge ∧ c.demand.requirement.isRange = true ∧ c.version? = none

instance (c : Candidate) : Decidable c.Unmatched :=
  inferInstanceAs (Decidable (_ ∧ _))

namespace Choice

variable {order : VersionOrder} {g : CandidateGraph} {id : ModuleId} {set : SortedSet Candidate}
  {v : String}

/-- A plain demand came to the version. -/
def Called (set : SortedSet Candidate) (v : String) : Prop :=
  ∃ c ∈ set, c.Plain ∧ c.version? = some v

/-- All ranges that plain demands ask for have the version in them. -/
def InRanges (order : VersionOrder) (set : SortedSet Candidate) (v : String) : Prop :=
  ∀ c ∈ set, c.Plain → ∀ r, c.demand.requirement = .range r → r.contains order v = true

theorem mem_pool {c : Candidate} :
    c ∈ ofKinds [.edge, .constraint] set ↔ c ∈ set ∧ c.Plain := by
  rw [mem_ofKinds]
  simp [Candidate.Plain]

theorem mem_versions_pool :
    v ∈ versions (ofKinds [.edge, .constraint] set) ↔ Called set v := by
  rw [mem_versions]
  simp only [mem_pool, Called, and_assoc]

theorem inAllRanges_pool :
    inAllRanges order (ofKinds [.edge, .constraint] set) v = true ↔ InRanges order set v := by
  unfold inAllRanges InRanges
  simp only [List.all_eq_true, mem_pool, Bool.or_eq_true, Bool.not_eq_true']
  constructor
  · intro h c hc hplain r hr
    rcases h c ⟨hc, hplain⟩ with hnot | haccepts
    · simp [hr, Requirement.isRange, Requirement.range?] at hnot
    · simpa [hr, Requirement.accepts] using haccepts
  · rintro h c ⟨hc, hplain⟩
    cases hr : c.demand.requirement with
    | range r => exact Or.inr (h c hc hplain r hr)
    | exact w => exact Or.inl rfl
    | prefer w => exact Or.inl rfl

/-- Without forced demands, plain ones decide. -/
theorem select_eq_highest
    (hforced : ∀ c ∈ set, c.demand.kind ≠ .forcedEdge ∧ c.demand.kind ≠ .forcedConstraint)
    (hplain : ∃ c ∈ set, c.Plain) :
    select order g id set = highest order g id (ofKinds [.edge, .constraint] set) := by
  have hnone : ∀ kind, (∀ c ∈ set, c.demand.kind ≠ kind) → ofKinds [kind] set = [] := by
    intro kind hkind
    rw [List.eq_nil_iff_forall_not_mem]
    intro c hc
    obtain ⟨hmem, heq⟩ := mem_ofKinds.1 hc
    exact hkind c hmem (List.mem_singleton.1 heq)
  unfold select
  rw [hnone .forcedEdge fun c hc => (hforced c hc).1,
    hnone .forcedConstraint fun c hc => (hforced c hc).2]
  obtain ⟨c, hc, hkind⟩ := hplain
  obtain ⟨p, ps, hpool⟩ := List.exists_cons_of_ne_nil
    (List.ne_nil_of_mem (mem_pool.2 ⟨hc, hkind⟩))
  simp only [hpool]

/-- Preferences make no difference where there are other demands. -/
theorem select_congr {other : SortedSet Candidate}
    (h : ∀ c : Candidate, c.demand.kind ≠ .preference → (c ∈ other ↔ c ∈ set))
    (hplain : ∃ c ∈ set, c.Plain) : select order g id other = select order g id set := by
  have hkinds : ∀ kinds, DemandKind.preference ∉ kinds →
      ofKinds kinds other = ofKinds kinds set := by
    intro kinds hkinds
    have hfilter : other.filter (kinds.contains ·.demand.kind) =
        set.filter (kinds.contains ·.demand.kind) := by
      apply SortedSet.ext
      intro c
      rw [SortedSet.mem_filter, SortedSet.mem_filter]
      refine and_congr_left fun hkind => h c ?_
      rintro heq
      rw [heq] at hkind
      exact hkinds (List.contains_iff_mem.1 hkind)
    exact congrArg SortedSet.toList hfilter
  obtain ⟨c, hc, hkind⟩ := hplain
  obtain ⟨p, ps, hpool⟩ := List.exists_cons_of_ne_nil
    (List.ne_nil_of_mem (mem_pool.2 ⟨hc, hkind⟩))
  unfold select
  rw [hkinds [.forcedEdge] (by simp), hkinds [.forcedConstraint] (by simp),
    hkinds [.edge, .constraint] (by simp)]
  simp only [hpool]

/-- A plain range that matched nothing is an error, whatever else is asked for. -/
theorem exists_error_of_unmatched (hcalled : Called set v) (h : ∃ c ∈ set, c.Unmatched) :
    ∃ requested cause, (highest order g id (ofKinds [.edge, .constraint] set)).error =
      some (.unresolved (.identity id) requested cause) := by
  obtain ⟨c, hc, hkind, hrange, hversion⟩ := h
  have hmem : c ∈ unmatchedRanges (ofKinds [.edge, .constraint] set) := by
    unfold unmatchedRanges
    rw [List.mem_filter]
    exact ⟨mem_pool.2 ⟨hc, Or.inl hkind⟩, by simp [hkind, hrange, hversion]⟩
  obtain ⟨u, us, hunmatched⟩ := List.exists_cons_of_ne_nil (List.ne_nil_of_mem hmem)
  have hne : order.maxOf (versions (ofKinds [.edge, .constraint] set)) ≠ none := by
    rw [ne_eq, VersionOrder.maxOf_eq_none_iff]
    exact List.ne_nil_of_mem (mem_versions_pool.2 hcalled)
  obtain ⟨top, htop⟩ := Option.ne_none_iff_exists'.1 hne
  unfold highest
  rw [htop]
  simp only [hunmatched]
  exact ⟨_, _, rfl⟩

/-- Without one, the highest version is taken unless a range refuses it and another one fits. -/
theorem highest_eq (g : CandidateGraph) (id : ModuleId) {top : String}
    (htop : order.maxOf (versions (ofKinds [.edge, .constraint] set)) = some top)
    (h : ∀ c ∈ set, ¬c.Unmatched) :
    (highest order g id (ofKinds [.edge, .constraint] set)).error = none ∧
      (highest order g id (ofKinds [.edge, .constraint] set)).version =
        some ((if inAllRanges order (ofKinds [.edge, .constraint] set) top then none
          else highestInRanges order g id (ofKinds [.edge, .constraint] set)).getD top) := by
  have hnone : unmatchedRanges (ofKinds [.edge, .constraint] set) = [] := by
    rw [List.eq_nil_iff_forall_not_mem]
    intro c hc
    obtain ⟨hmem, hcond⟩ := List.mem_filter.1 hc
    apply h c (mem_pool.1 hmem).1
    simpa [Candidate.Unmatched, and_assoc] using hcond
  unfold highest
  rw [htop]
  simp only [hnone]
  exact ⟨trivial, trivial⟩

/-- Versions on record with metadata. -/
theorem mem_recorded (hg : g.KeepsCoordinates) :
    (v ∈ (g.versionsOf id).filterMap fun n =>
      n.finding.descriptor?.map fun _ => n.coordinates.version) ↔
      ∃ d, g.descriptor? (id.atVersion v) = some d := by
  unfold CandidateGraph.descriptor? CandidateGraph.versionsOf
  rw [List.mem_filterMap]
  constructor
  · rintro ⟨n, hn, hv⟩
    obtain ⟨hvalue, hid⟩ := List.mem_filter.1 hn
    obtain ⟨c, hc⟩ := SortedMap.mem_values_iff.1 hvalue
    obtain ⟨d, hd, rfl⟩ := Option.map_eq_some_iff.1 hv
    have hnode : g.node? n.coordinates = some n := by
      rw [hg c n hc]
      exact hc
    have hat : id.atVersion n.coordinates.version = n.coordinates := by
      rw [← beq_iff_eq.1 hid]
      rfl
    exact ⟨d, by rw [hat, hnode]; exact hd⟩
  · rintro ⟨d, hd⟩
    obtain ⟨n, hn, hd⟩ := Option.bind_eq_some_iff.1 hd
    have hcoordinates := hg _ n hn
    refine ⟨n, List.mem_filter.2 ⟨SortedMap.mem_values_iff.2 ⟨_, hn⟩, ?_⟩, ?_⟩
    · simp [hcoordinates, ModuleId.atVersion]
    · simp [hd, hcoordinates, ModuleId.atVersion]

/-! ## Ranges of a catalog -/

section

variable {catalog : Catalog} {t : Task} {b : Builder}
  (hprovider : t.provider = catalog.provider order) (hb : t.Finished b) (h : order.IsPreorder)
  (hmeets : ∀ c ∈ set, Rounds.Meets order b.graph t.constraints id c)

include hprovider hb

/-- What is on record with metadata is published. -/
theorem mem_versions_of_recorded {d : Descriptor}
    (hd : b.graph.descriptor? (id.atVersion v) = some d) : v ∈ catalog.versions id := by
  obtain ⟨n, hn, hfound⟩ := Option.bind_eq_some_iff.1 hd
  have hfinding : b.graph.finding? (id.atVersion v) = some (.found d) := by
    refine CandidateGraph.finding?_eq_some_iff.2 ⟨n, hn, ?_⟩
    cases hf : n.finding <;> simp_all [Finding.descriptor?]
  have htells := hb.tells hfinding
  rw [hprovider] at htells
  obtain ⟨hmem, hcoordinates⟩ := Catalog.mem_of_tells htells
  refine List.mem_map.2 ⟨d, List.mem_filter.2 ⟨hmem, ?_⟩, congrArg Coordinates.version hcoordinates⟩
  exact beq_iff_eq.2 (congrArg Coordinates.id hcoordinates)

include h hmeets

/-- A plain range that some published version is in came to the highest one in it. -/
theorem exists_highest_of_range {c : Candidate} (hc : c ∈ set) {r : VersionRange}
    (hr : c.demand.requirement = .range r) {w : String} (hw : w ∈ catalog.versions id)
    (hin : r.contains order w = true) : ∃ v, c.version? = some v ∧
      order.Highest (fun w => w ∈ catalog.versions id ∧ r.contains order w = true) v ∧
      ∃ d, b.graph.descriptor? (id.atVersion v) = some d := by
  obtain ⟨hanswer, hsettled⟩ := hb.answered_of_meets (hmeets c hc)
  rw [hprovider, hr] at hanswer
  cases hv : (catalog.provider order).answer? ⟨id, .range r⟩ with
  | none =>
      rw [Catalog.contains_eq_false_of_answer? h hv hw] at hin
      simp at hin
  | some v =>
      obtain ⟨hhighest, d, htells⟩ := Catalog.highest_of_answer? h hv
      obtain ⟨n, hn⟩ := hsettled.recorded v (hanswer.trans hv)
      have hsteady : t.provider.Steady := hprovider ▸ Catalog.steady_provider h.oriented
      exact ⟨v, hanswer.trans hv, hhighest, d,
        hb.descriptor?_of_tells hsteady hn (hprovider ▸ htells)⟩

/-- The lowest of the versions that plain ranges came to is in all of them, if any published
version is, and no such version goes beyond it. -/
theorem exists_recorded_in_ranges {w : String} (hw : w ∈ catalog.versions id)
    (hin : InRanges order set w) {c : Candidate} (hc : c ∈ set) (hplain : c.Plain)
    {r : VersionRange} (hr : c.demand.requirement = .range r) :
    ∃ m, InRanges order set m ∧ (∃ d, b.graph.descriptor? (id.atVersion m) = some d) ∧
      ∀ w ∈ catalog.versions id, InRanges order set w → order.compare w m ≠ .gt := by
  let came : List String := (ofKinds [.edge, .constraint] set).filterMap fun c =>
    c.demand.requirement.range?.bind fun _ => c.version?
  have hcame : ∀ {c r v}, c ∈ set → c.Plain → c.demand.requirement = .range r →
      c.version? = some v → v ∈ came := by
    intro c r v hc hplain hr hv
    exact List.mem_filterMap.2 ⟨c, mem_pool.2 ⟨hc, hplain⟩, by simp [hr, Requirement.range?, hv]⟩
  obtain ⟨v, hv, -, -⟩ :=
    exists_highest_of_range hprovider hb h hmeets hc hr hw (hin c hc hplain r hr)
  obtain ⟨m, hm, hleast⟩ := h.exists_least (fun _ _ => trivial)
    (List.ne_nil_of_mem (hcame hc hplain hr hv))
  obtain ⟨c', hc', hm⟩ := List.mem_filterMap.1 hm
  obtain ⟨r', hr', hm⟩ := Option.bind_eq_some_iff.1 hm
  obtain ⟨hc', hplain'⟩ := mem_pool.1 hc'
  have hrange : c'.demand.requirement = .range r' := by
    cases hreq : c'.demand.requirement <;> simp_all [Requirement.range?]
  obtain ⟨m', hm', hhighest, hrecorded⟩ :=
    exists_highest_of_range hprovider hb h hmeets hc' hrange hw
    (hin c' hc' hplain' r' hrange)
  obtain rfl := Option.some.inj (hm.symm.trans hm')
  have hbeyond : ∀ w ∈ catalog.versions id, InRanges order set w → order.compare w m ≠ .gt :=
    fun w hw hin => hhighest.2 w ⟨hw, hin c' hc' hplain' r' hrange⟩
  refine ⟨m, ?_, hrecorded, hbeyond⟩
  intro k hk hkplain s hs
  -- The version lies between one in all ranges and what this range came to.
  obtain ⟨u, hu, huhighest, -⟩ := exists_highest_of_range hprovider hb h hmeets hk hs hw
    (hin k hk hkplain s hs)
  exact VersionRange.contains_of_between h (hin k hk hkplain s hs) huhighest.1.2 (hbeyond w hw hin)
    (hleast u (hcame hk hkplain hs hu))

/-- The versions on record suffice to find the highest one that is in all ranges. -/
theorem exists_highestInRanges (hpublished : ∃ v ∈ catalog.versions id, InRanges order set v)
    (hasked : ∃ c ∈ set, c.Plain ∧ ∃ r, c.demand.requirement = .range r) :
    ∃ best, highestInRanges order b.graph id (ofKinds [.edge, .constraint] set) = some best ∧
      order.Highest (fun v => v ∈ catalog.versions id ∧ InRanges order set v) best := by
  obtain ⟨w, hw, hin⟩ := hpublished
  obtain ⟨c, hc, hplain, r, hr⟩ := hasked
  obtain ⟨m, hm, hrecorded, hbeyond⟩ :=
    exists_recorded_in_ranges hprovider hb h hmeets hw hin hc hplain hr
  have hg := hb.tidy.arena.coordinates
  have hfits := List.mem_filter.2 ⟨(mem_recorded hg).2 hrecorded, inAllRanges_pool.2 hm⟩
  obtain ⟨best, hbest⟩ := Option.ne_none_iff_exists'.1 fun hnone =>
    List.ne_nil_of_mem hfits (VersionOrder.maxOf_eq_none_iff.1 hnone)
  obtain ⟨hmem, hle⟩ := h.highest_of_maxOf (fun _ _ => trivial) hbest
  obtain ⟨hbestRecorded, hbestIn⟩ := List.mem_filter.1 hmem
  obtain ⟨d, hd⟩ := (mem_recorded hg).1 hbestRecorded
  refine ⟨best, hbest, ⟨mem_versions_of_recorded hprovider hb hd, inAllRanges_pool.1 hbestIn⟩, ?_⟩
  rintro u ⟨hu, huin⟩
  exact h.le_trans (hbeyond u hu huin) (hle m hfits)

omit h hmeets in
theorem highestInRanges_eq_none (hnone : ∀ v ∈ catalog.versions id, ¬InRanges order set v) :
    highestInRanges order b.graph id (ofKinds [.edge, .constraint] set) = none := by
  unfold highestInRanges
  rw [VersionOrder.maxOf_eq_none_iff, List.filter_eq_nil_iff]
  intro v hv hin
  obtain ⟨d, hd⟩ := (mem_recorded hb.tidy.arena.coordinates).1 hv
  exact hnone v (mem_versions_of_recorded hprovider hb hd) (inAllRanges_pool.1 hin)

end

/-- What is chosen from plain demands none of which is an edge with an unmatched range; `top` is the
highest version that they came to. -/
structure Honours (order : VersionOrder) (catalog : Catalog) (id : ModuleId)
    (set : SortedSet Candidate) (top : String) (choice : Choice) : Prop where
  highest : order.Highest (Called set) top
  error : choice.error = none
  kept : InRanges order set top → choice.version = some top
  narrowed : ¬InRanges order set top → (∃ v ∈ catalog.versions id, InRanges order set v) →
    ∃ best, choice.version = some best ∧
      order.Highest (fun v => v ∈ catalog.versions id ∧ InRanges order set v) best
  refused : ¬InRanges order set top → (∀ v ∈ catalog.versions id, ¬InRanges order set v) →
    choice.version = some top

/-- Ranges are honoured in every round over a graph built from a catalog: wherever plain demands
decide, they come to the highest published version in all ranges that they ask for. -/
theorem honours_of_build {catalog : Catalog} {rules : PlatformRules} {root : Coordinates}
    {dependencies : List Dependency} {constraints : SortedSet Constraint} {levels : Nat}
    {r : Rounds} {live : Live} (h : order.IsPreorder)
    (hbuild : ((Builder.start root dependencies constraints).run (catalog.provider order).lookup
      rules levels).run () = (some g, ()))
    (hr : Rounds.Reached order g constraints r) (hwalk : walk g r.guide = some live)
    (hset : (r.gathered g constraints live).get? id = some set)
    (hforced : ∀ c ∈ set, c.demand.kind ≠ .forcedEdge ∧ c.demand.kind ≠ .forcedConstraint)
    (hcalled : ∃ v, Called set v) :
    ((∀ c ∈ set, ¬c.Unmatched) →
      ∃ top, Honours order catalog id set top (select order g id set)) ∧
    ((∃ c ∈ set, c.Unmatched) → ∃ requested cause,
      (select order g id set).error = some (.unresolved (.identity id) requested cause)) ∧
    ∀ other : SortedSet Candidate,
      (∀ c : Candidate, c.demand.kind ≠ .preference → (c ∈ other ↔ c ∈ set)) →
        select order g id other = select order g id set := by
  obtain ⟨b, hb, rfl⟩ := Task.finished_of_run
    (t := ⟨catalog.provider order, rules, root, dependencies, constraints⟩) hbuild
  have hmeets : ∀ c ∈ set, Rounds.Meets order b.graph constraints id c := by
    intro c hc
    rw [Rounds.get?_demands] at hset
    obtain ⟨fresh, hfresh, rfl⟩ := Option.map_eq_some_iff.1 hset
    rcases SortedSet.mem_union.1 hc with hc | hc
    · exact Rounds.meets_of_recalled hr hc
    · exact ⟨r, live, fresh, hr, hwalk, hfresh, hc⟩
  obtain ⟨v, hv⟩ := hcalled
  have hplain : ∃ c ∈ set, c.Plain := by
    obtain ⟨c, hc, hplain, -⟩ := hv
    exact ⟨c, hc, hplain⟩
  refine ⟨fun hmatched => ?_, fun hunmatched => ?_, fun other hother => select_congr hother hplain⟩
  · obtain ⟨top, htop⟩ := Option.ne_none_iff_exists'.1 fun hnone =>
      List.ne_nil_of_mem (mem_versions_pool.2 hv) (VersionOrder.maxOf_eq_none_iff.1 hnone)
    obtain ⟨herror, hversion⟩ := highest_eq b.graph id htop hmatched
    rw [select_eq_highest hforced hplain]
    refine ⟨top, ?_, herror, ?_, ?_, ?_⟩
    · obtain ⟨hmem, hle⟩ := h.highest_of_maxOf (fun _ _ => trivial) htop
      exact ⟨mem_versions_pool.1 hmem, fun w hw => hle w (mem_versions_pool.2 hw)⟩
    · intro hin
      rw [hversion, if_pos (inAllRanges_pool.2 hin)]
      rfl
    · intro hout hpublished
      have hasked : ∃ c ∈ set, c.Plain ∧ ∃ r, c.demand.requirement = .range r := by
        simp only [InRanges, not_forall] at hout
        obtain ⟨c, hc, hkind, r, hrange, -⟩ := hout
        exact ⟨c, hc, hkind, r, hrange⟩
      obtain ⟨best, hbest, hhighest⟩ := exists_highestInRanges rfl hb h hmeets hpublished hasked
      refine ⟨best, ?_, hhighest⟩
      rw [hversion, if_neg (mt inAllRanges_pool.1 hout), hbest]
      rfl
    · intro hout hnone
      rw [hversion, if_neg (mt inAllRanges_pool.1 hout), highestInRanges_eq_none rfl hb hnone]
      rfl
  · rw [select_eq_highest hforced hplain]
    exact exists_error_of_unmatched hv hunmatched

end Choice

/-! ### Two ranges and a version above them -/

namespace Sample

/-- `auth` asks for any `core` from 2 to 6. -/
def overlapping : Catalog :=
  ⟨[describe "core" "1.0.0" [], describe "core" "2.0.0" [], describe "core" "3.0.0" [],
    describe "core" "4.0.0" [], describe "core" "5.0.0" [],
    describe "auth" "1.0.0" [rangeOf "core" "2.0.0" "6.0.0"]]⟩

/-- What the builder comes to where the root asks for a `core` below 4 and for the highest one. -/
def overlappingBuild : Option CandidateGraph × Unit :=
  ((Builder.start root [dependency "core" "5.0.0", rangeOf "core" "1.0.0" "4.0.0",
    dependency "auth" "1.0.0"] ∅).run
      (overlapping.provider Version.semanticOrder).lookup [] 8).run ()

end Sample

theorem Choice.honours_over_overlapping : ∃ g live set top,
    Sample.overlappingBuild = (some g, ()) ∧
    Rounds.Reached Version.semanticOrder g ∅ {} ∧ walk g ({} : Rounds).guide = some live ∧
    (({} : Rounds).gathered g ∅ live).get? (Sample.id "core") = some set ∧
    (∀ c ∈ set, c.demand.kind ≠ .forcedEdge ∧ c.demand.kind ≠ .forcedConstraint) ∧
    Called set "5.0.0" ∧ (∀ c ∈ set, ¬c.Unmatched) ∧
    Honours Version.semanticOrder Sample.overlapping (Sample.id "core") set top
      (select Version.semanticOrder g (Sample.id "core") set) ∧
    (select Version.semanticOrder g (Sample.id "core") set).version = some "3.0.0" := by
  have hfound : (Sample.overlappingBuild.1.any fun g => (walk g ({} : Rounds).guide).any fun live =>
      ((({} : Rounds).gathered g ∅ live).get? (Sample.id "core")).any fun set =>
        (∀ c ∈ set.toList, (c.demand.kind ≠ .forcedEdge ∧ c.demand.kind ≠ .forcedConstraint) ∧
          ¬c.Unmatched) ∧
        "5.0.0" ∈ versions (ofKinds [.edge, .constraint] set) ∧
        (select Version.semanticOrder g (Sample.id "core") set).version = some "3.0.0") = true := by
    decide +kernel
  obtain ⟨g, hg, hfound⟩ := (Option.any_eq_true _ _).1 hfound
  obtain ⟨live, hwalk, hfound⟩ := (Option.any_eq_true _ _).1 hfound
  obtain ⟨set, hset, hcond⟩ := (Option.any_eq_true _ _).1 hfound
  obtain ⟨hplain, hcalled, hversion⟩ := of_decide_eq_true hcond
  have hbuild : Sample.overlappingBuild = (some g, ()) := by
    rw [← hg]
  have hforced := fun c (hc : c ∈ set) => (hplain c hc).1
  have hmatched := fun c (hc : c ∈ set) => (hplain c hc).2
  have hcalled := mem_versions_pool.1 hcalled
  obtain ⟨hhonours, -, -⟩ := honours_of_build (VersionOrder.isPreorder_of_transCmp _) hbuild .first
    hwalk hset hforced ⟨_, hcalled⟩
  obtain ⟨top, htop⟩ := hhonours hmatched
  exact ⟨g, live, set, top, hbuild, .first, hwalk, hset, hforced, hcalled, hmatched, htop, hversion⟩

end Lockstep
