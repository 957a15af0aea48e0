import Lockstep.Proofs.Counting
import Lockstep.Proofs.Region

/-!
# What a walk reaches

A walk ends in the least closed region: the region is closed
(`Walk.closed_of_run`), and it lies in every other closed region
(`Walk.le_of_run`). Nothing in either statement depends on the order in which
arrivals are taken. `walk_isSome` shows that the bound on its steps is enough,
so that every guide has a live graph.
-/

namespace Lockstep

namespace Walk

variable {g : CandidateGraph} {guide : Guide}

/-! ## One arrival -/

/-- The exclusions of a module after one more way to it. -/
abbrev shared (w : Walk) (target : ModuleId) (inherited : Exclusions) : Exclusions :=
  .shared (w.exclusions.get? target) inherited

section Arrive

variable {w : Walk} {e : EdgeId} {edge : Edge} {inherited : Exclusions}

theorem arrive_none (h : g.edge? e = none) : w.arrive g guide e inherited = w := by
  unfold arrive
  rw [h]

theorem exclusions_arrive (h : g.edge? e = some edge) :
    (w.arrive g guide e inherited).exclusions =
      w.exclusions.insert edge.target (w.shared edge.target inherited) := by
  unfold arrive
  rw [h]
  rfl

theorem get?_exclusions_arrive (h : g.edge? e = some edge) (id : ModuleId) :
    (w.arrive g guide e inherited).exclusions.get? id =
      if id = edge.target then some (w.shared edge.target inherited)
      else w.exclusions.get? id := by
  rw [exclusions_arrive h, SortedMap.get?_insert]

/-- The versions that an edge adds: the one that it leads to, if it is new. -/
def fresh (w : Walk) (guide : Guide) (edge : Edge) : List Coordinates :=
  ((edge.version? guide).map edge.target.atVersion).toList.filter fun c => !w.nodes.contains c

theorem mem_fresh {c : Coordinates} :
    c ∈ w.fresh guide edge ↔
      c.id = edge.target ∧ edge.version? guide = some c.version ∧ c ∉ w.nodes := by
  obtain ⟨id, v⟩ := c
  unfold fresh
  rw [List.mem_filter, Option.mem_toList, Option.map_eq_some_iff, Bool.not_eq_true',
    ← Bool.not_eq_true, SortedSet.contains_iff]
  simp only [ModuleId.atVersion, Coordinates.mk.injEq]
  constructor
  · rintro ⟨⟨v', hv', rfl, rfl⟩, hnew⟩
    exact ⟨rfl, hv', hnew⟩
  · rintro ⟨rfl, hv, hnew⟩
    exact ⟨⟨v, hv, rfl, rfl⟩, hnew⟩

theorem nodes_arrive (h : g.edge? e = some edge) :
    (w.arrive g guide e inherited).nodes = w.nodes.insertAll (w.fresh guide edge) := by
  unfold arrive
  rw [h]
  rfl

theorem mem_nodes_arrive (h : g.edge? e = some edge) {c : Coordinates} :
    c ∈ (w.arrive g guide e inherited).nodes ↔
      c ∈ w.nodes ∨ c.id = edge.target ∧ edge.version? guide = some c.version := by
  rw [nodes_arrive h, SortedSet.mem_insertAll, mem_fresh]
  by_cases hc : c ∈ w.nodes
  · simp [hc]
  · simp [hc]

/-- The versions whose edges are taken up: all of the target if its exclusions shrank, or else
the new one. -/
def expanded (w : Walk) (guide : Guide) (edge : Edge) (inherited : Exclusions) :
    List Coordinates :=
  if w.exclusions.get? edge.target ≠ some (w.shared edge.target inherited) then
    (w.nodes.insertAll (w.fresh guide edge)).toList.filter (·.id == edge.target)
  else w.fresh guide edge

theorem pending_arrive (h : g.edge? e = some edge) :
    (w.arrive g guide e inherited).pending =
      w.pending ++ (w.expanded guide edge inherited).flatMap
        (onward g (w.shared edge.target inherited)) := by
  unfold arrive
  rw [h]
  rfl

theorem id_of_mem_expanded {c : Coordinates} (hc : c ∈ w.expanded guide edge inherited) :
    c.id = edge.target := by
  unfold expanded at hc
  split at hc
  · exact eq_of_beq (List.mem_filter.1 hc).2
  · exact (mem_fresh.1 hc).1

theorem mem_nodes_of_mem_expanded (h : g.edge? e = some edge) {c : Coordinates}
    (hc : c ∈ w.expanded guide edge inherited) : c ∈ (w.arrive g guide e inherited).nodes := by
  rw [nodes_arrive h]
  unfold expanded at hc
  split at hc
  · exact (List.mem_filter.1 hc).1
  · exact SortedSet.mem_insertAll.2 (Or.inl hc)

/-- A version of the target is taken up if it is new or the exclusions shrank. -/
theorem mem_expanded (h : g.edge? e = some edge) {c : Coordinates}
    (hc : c ∈ (w.arrive g guide e inherited).nodes) (hid : c.id = edge.target)
    (hnew : c ∈ w.nodes →
      w.exclusions.get? edge.target ≠ some (w.shared edge.target inherited)) :
    c ∈ w.expanded guide edge inherited := by
  rw [nodes_arrive h] at hc
  unfold expanded
  by_cases hshrank : w.exclusions.get? edge.target ≠ some (w.shared edge.target inherited)
  · rw [if_pos hshrank]
    exact List.mem_filter.2 ⟨hc, beq_iff_eq.2 hid⟩
  · rw [if_neg hshrank]
    rcases SortedSet.mem_insertAll.1 hc with hfresh | hold
    · exact hfresh
    · exact absurd (hnew hold) hshrank

/-- A version whose edges are not taken up was there before, with the exclusions that it has. -/
theorem mem_and_get?_of_not_mem_expanded (h : g.edge? e = some edge) {c : Coordinates}
    (hc : c ∈ (w.arrive g guide e inherited).nodes) {set : Exclusions}
    (hset : (w.arrive g guide e inherited).exclusions.get? c.id = some set)
    (hexpanded : c ∉ w.expanded guide edge inherited) :
    c ∈ w.nodes ∧ w.exclusions.get? c.id = some set := by
  rw [get?_exclusions_arrive h] at hset
  by_cases hid : c.id = edge.target
  · rw [if_pos hid] at hset
    by_contra hnew
    refine hexpanded (mem_expanded h hc hid fun hin heq => hnew ⟨hin, ?_⟩)
    rw [hid]
    exact heq.trans hset
  · rw [if_neg hid] at hset
    exact ⟨((mem_nodes_arrive h).1 hc).resolve_right fun hnode => hid hnode.1, hset⟩

/-- An arrival lets the region grow. -/
theorem region_le_arrive (g : CandidateGraph) (guide : Guide) (w : Walk) (e : EdgeId)
    (inherited : Exclusions) : w.region.Le (w.arrive g guide e inherited).region := by
  cases h : g.edge? e with
  | none =>
      rw [arrive_none h]
      exact Region.le_refl _
  | some edge =>
      refine ⟨fun c hc => (mem_nodes_arrive h).2 (Or.inl hc), ?_⟩
      intro id set hset
      change ∃ shared, (w.arrive g guide e inherited).exclusions.get? id = some shared ∧ _
      rw [get?_exclusions_arrive h]
      by_cases hid : id = edge.target
      · subst hid
        exact ⟨_, if_pos rfl, Exclusions.shared_subset_before hset inherited⟩
      · exact ⟨set, by rw [if_neg hid]; exact hset, SortedSet.Subset.refl set⟩

/-- An arrival leads to nothing outside of a region where it has arrived itself. -/
theorem region_arrive_le {R : Region} (h : g.edge? e = some edge) (hw : w.region.Le R)
    (harrives : R.Arrives edge.target (edge.version? guide) inherited) :
    (w.arrive g guide e inherited).region.Le R := by
  obtain ⟨least, hleast, hsub, hnode⟩ := harrives
  constructor
  case nodes =>
    intro c hc
    rcases (mem_nodes_arrive h).1 hc with hold | ⟨hid, hv⟩
    · exact hw.nodes c hold
    · have hmem := hnode c.version hv
      rw [← hid] at hmem
      exact hmem
  case exclusions =>
    intro id set hset
    change (Walk.arrive g guide _ e inherited).exclusions.get? id = some set at hset
    rw [get?_exclusions_arrive h] at hset
    by_cases hid : id = edge.target
    · subst hid
      rw [if_pos rfl] at hset
      obtain rfl := Option.some.inj hset
      exact ⟨least, hleast, hw.subset_shared hleast hsub⟩
    · rw [if_neg hid] at hset
      exact hw.exclusions id set hset

/-- What has been taken has arrived. -/
theorem arrives_arrive (h : g.edge? e = some edge) :
    (w.arrive g guide e inherited).region.Arrives edge.target (edge.version? guide) inherited := by
  refine ⟨w.shared edge.target inherited, ?_, Exclusions.shared_subset_inherited _ _, ?_⟩
  · exact (get?_exclusions_arrive h _).trans (if_pos rfl)
  · intro v hv
    exact (mem_nodes_arrive h).2 (Or.inr ⟨rfl, hv⟩)

end Arrive

/-! ## Runs -/

theorem step_cons (w : Walk) (e : EdgeId) (inherited : Exclusions)
    (rest : List (EdgeId × Exclusions)) (h : w.pending = (e, inherited) :: rest) :
    w.step g guide = { w with pending := rest }.arrive g guide e inherited := by
  unfold step
  rw [h]

/-- What every arrival preserves holds at the end of a run, when nothing is pending. -/
theorem run_induction {P : Walk → Prop}
    (hstep : ∀ w : Walk, ∀ e inherited rest, w.pending = (e, inherited) :: rest → P w →
      P ({ w with pending := rest }.arrive g guide e inherited))
    {steps : Nat} {w w' : Walk} (hw : P w) (hrun : w.run g guide steps = some w') :
    P w' ∧ w'.pending = [] := by
  induction steps generalizing w with
  | zero =>
      unfold run at hrun
      split at hrun
      · next hempty =>
        obtain rfl := Option.some.inj hrun
        exact ⟨hw, List.isEmpty_iff.1 hempty⟩
      · cases hrun
  | succ steps ih =>
      unfold run at hrun
      split at hrun
      · next hempty =>
        obtain rfl := Option.some.inj hrun
        exact ⟨hw, List.isEmpty_iff.1 hempty⟩
      · cases hpending : w.pending with
        | nil => simp_all
        | cons p rest =>
            obtain ⟨e, inherited⟩ := p
            rw [step_cons w e inherited rest hpending] at hrun
            exact ih (hstep w e inherited rest hpending hw) hrun

/-! ## The region is the least one -/

/-- What has been reached lies in a region, and so does all that is pending. -/
structure Within (g : CandidateGraph) (guide : Guide) (R : Region) (w : Walk) : Prop where
  region : w.region.Le R
  pending : ∀ e inherited, (e, inherited) ∈ w.pending → ∀ edge, g.edge? e = some edge →
    R.Arrives edge.target (edge.version? guide) inherited

variable {R : Region}

theorem within_start (hR : R.Closed g guide) : Within g guide R (start g) := by
  refine ⟨⟨fun c hc => absurd hc (SortedSet.not_mem_empty c), fun id set h => by cases h⟩, ?_⟩
  intro e inherited hmem edge hedge
  obtain ⟨e', he', heq⟩ := List.mem_filterMap.1 hmem
  obtain ⟨edge', hedge', hpair⟩ := Option.map_eq_some_iff.1 heq
  obtain ⟨rfl, rfl⟩ := Prod.mk.inj hpair
  rw [hedge] at hedge'
  obtain rfl := Option.some.inj hedge'
  exact hR.root e' he' edge hedge

theorem within_arrive (hR : R.Closed g guide) {w : Walk} {e : EdgeId} {inherited : Exclusions}
    {rest : List (EdgeId × Exclusions)} (hpending : w.pending = (e, inherited) :: rest)
    (hw : Within g guide R w) :
    Within g guide R ({ w with pending := rest }.arrive g guide e inherited) := by
  have hrest : ∀ e' inherited', (e', inherited') ∈ rest → ∀ edge, g.edge? e' = some edge →
      R.Arrives edge.target (edge.version? guide) inherited' := fun e' inherited' hmem =>
    hw.pending e' inherited' (by rw [hpending]; exact List.mem_cons_of_mem _ hmem)
  cases h : g.edge? e with
  | none =>
      rw [arrive_none h]
      exact ⟨hw.region, hrest⟩
  | some edge =>
      have harrives := hw.pending e inherited (by rw [hpending]; exact List.mem_cons_self) edge h
      have hregion := region_arrive_le (w := { w with pending := rest }) h hw.region harrives
      obtain ⟨least, hleast, hsub, -⟩ := harrives
      have hshared : least ⊆ shared { w with pending := rest } edge.target inherited :=
        hw.region.subset_shared hleast hsub
      refine ⟨hregion, ?_⟩
      intro e' inherited' hmem edge' hedge'
      rw [pending_arrive h, List.mem_append, List.mem_flatMap] at hmem
      rcases hmem with hmem | ⟨c, hc, hmem⟩
      · exact hrest e' inherited' hmem edge' hedge'
      · obtain ⟨edge'', hout, hedge'', hex, rfl⟩ := mem_onward.1 hmem
        rw [hedge'] at hedge''
        obtain rfl := Option.some.inj hedge''
        have hset : R.exclusions c.id = some least := by
          rw [id_of_mem_expanded hc]
          exact hleast
        refine (hR.onward c (hregion.nodes c (mem_nodes_of_mem_expanded h hc)) least hset e' hout
          edge' hedge' ?_).weaken (SortedSet.union_subset_union hshared)
        exact Exclusions.exclude_eq_false_of_subset hshared hex

/-- A walk stays inside every closed region. -/
theorem le_of_run (hR : R.Closed g guide) {steps : Nat} {w : Walk}
    (hrun : (start g).run g guide steps = some w) : w.region.Le R :=
  (run_induction (fun _ _ _ _ hpending => within_arrive hR hpending)
    (within_start hR) hrun).1.region

/-! ## The region is closed -/

/-- Every edge that may be followed has arrived or is pending. -/
structure Owed (g : CandidateGraph) (guide : Guide) (w : Walk) : Prop where
  reached : ∀ c ∈ w.nodes, ∃ set, w.exclusions.get? c.id = some set
  root : ∀ e ∈ g.rootEdges, ∀ edge, g.edge? e = some edge →
    (e, edge.dependency.exclusions) ∈ w.pending ∨
      w.region.Arrives edge.target (edge.version? guide) edge.dependency.exclusions
  onward : ∀ c ∈ w.nodes, ∀ set, w.exclusions.get? c.id = some set → ∀ e ∈ g.outgoing c,
    ∀ edge, g.edge? e = some edge → set.exclude edge.target = false →
      (e, set.union edge.dependency.exclusions) ∈ w.pending ∨
        w.region.Arrives edge.target (edge.version? guide) (set.union edge.dependency.exclusions)

theorem owed_start : Owed g guide (start g) := by
  refine ⟨fun c hc => absurd hc (SortedSet.not_mem_empty c), ?_,
    fun c hc => absurd hc (SortedSet.not_mem_empty c)⟩
  intro e he edge hedge
  exact Or.inl (List.mem_filterMap.2 ⟨e, he, by rw [hedge]; rfl⟩)

/-- What was pending or had arrived is pending or has arrived after one more arrival. -/
theorem owed_or_arrives {w : Walk} {e : EdgeId} {inherited : Exclusions}
    {rest : List (EdgeId × Exclusions)} (hpending : w.pending = (e, inherited) :: rest)
    {e' : EdgeId} {inherited' : Exclusions} {edge' : Edge} (hedge' : g.edge? e' = some edge')
    (h : (e', inherited') ∈ w.pending ∨
      w.region.Arrives edge'.target (edge'.version? guide) inherited') :
    (e', inherited') ∈ ({ w with pending := rest }.arrive g guide e inherited).pending ∨
      ({ w with pending := rest }.arrive g guide e inherited).region.Arrives edge'.target
        (edge'.version? guide) inherited' := by
  have hle : w.region.Le ({ w with pending := rest }.arrive g guide e inherited).region :=
    region_le_arrive g guide { w with pending := rest } e inherited
  rcases h with hmem | harrives
  · rw [hpending] at hmem
    rcases List.mem_cons.1 hmem with heq | hmem
    · obtain ⟨rfl, rfl⟩ := Prod.mk.inj heq
      exact Or.inr (arrives_arrive hedge')
    · left
      cases hedge : g.edge? e with
      | none =>
          rw [arrive_none hedge]
          exact hmem
      | some edge =>
          rw [pending_arrive hedge]
          exact List.mem_append_left _ hmem
  · exact Or.inr (harrives.mono hle)

theorem owed_arrive {w : Walk} {e : EdgeId} {inherited : Exclusions}
    {rest : List (EdgeId × Exclusions)} (hpending : w.pending = (e, inherited) :: rest)
    (hw : Owed g guide w) :
    Owed g guide ({ w with pending := rest }.arrive g guide e inherited) := by
  refine ⟨?_, fun e' he' edge' hedge' =>
    owed_or_arrives hpending hedge' (hw.root e' he' edge' hedge'), ?_⟩
  · intro c hc
    cases hedge : g.edge? e with
    | none =>
        rw [arrive_none hedge] at hc ⊢
        exact hw.reached c hc
    | some edge =>
        rw [get?_exclusions_arrive hedge]
        rcases (mem_nodes_arrive hedge).1 hc with hold | ⟨hid, -⟩
        · by_cases hid : c.id = edge.target
          · exact ⟨_, if_pos hid⟩
          · rw [if_neg hid]
            exact hw.reached c hold
        · exact ⟨_, if_pos hid⟩
  · intro c hc set hset e' he' edge' hedge' hex
    cases hedge : g.edge? e with
    | none =>
        rw [arrive_none hedge] at hc hset
        exact owed_or_arrives hpending hedge' (hw.onward c hc set hset e' he' edge' hedge' hex)
    | some edge =>
        -- Either the version was not taken up, and its exclusions are as before, or all of its
        -- edges have just become pending.
        by_cases hexp : c ∈ expanded { w with pending := rest } guide edge inherited
        · left
          rw [pending_arrive hedge]
          refine List.mem_append_right _ (List.mem_flatMap.2 ⟨c, hexp, mem_onward.2 ?_⟩)
          rw [get?_exclusions_arrive hedge, if_pos (id_of_mem_expanded hexp)] at hset
          obtain rfl := Option.some.inj hset
          exact ⟨edge', he', hedge', hex, rfl⟩
        · have hold := mem_and_get?_of_not_mem_expanded hedge hc hset hexp
          exact owed_or_arrives hpending hedge'
            (hw.onward c hold.1 set hold.2 e' he' edge' hedge' hex)

/-- At the end of a walk, every version reached belongs to a module with exclusions. -/
theorem reached_of_run {steps : Nat} {w : Walk} (hrun : (start g).run g guide steps = some w) :
    ∀ c ∈ w.nodes, ∃ set, w.exclusions.get? c.id = some set :=
  (run_induction (fun _ _ _ _ hpending => owed_arrive hpending) owed_start hrun).1.reached

/-- When nothing is pending, every edge that may be followed has arrived. -/
theorem Owed.closed {w : Walk} (hw : Owed g guide w) (hdone : w.pending = []) :
    w.region.Closed g guide := by
  constructor
  · intro e he edge hedge
    rcases hw.root e he edge hedge with hmem | harrives
    · rw [hdone] at hmem
      cases hmem
    · exact harrives
  · intro c hc set hset e he edge hedge hex
    rcases hw.onward c hc set hset e he edge hedge hex with hmem | harrives
    · rw [hdone] at hmem
      cases hmem
    · exact harrives

/-- A walk ends in a closed region. -/
theorem closed_of_run {steps : Nat} {w : Walk} (hrun : (start g).run g guide steps = some w) :
    w.region.Closed g guide := by
  obtain ⟨howed, hdone⟩ :=
    run_induction (fun _ _ _ _ hpending => owed_arrive hpending) owed_start hrun
  exact howed.closed hdone

/-! ## The bound on the steps -/

/-- All exclusions that edges of the graph mention. -/
def mentioned (g : CandidateGraph) : Exclusions :=
  .ofList (g.edges.toList.flatMap (·.dependency.exclusions.toList))

/-- The number of exclusions on edges. -/
def entries (g : CandidateGraph) : Nat :=
  (g.edges.toList.flatMap (·.dependency.exclusions.toList)).length

theorem exclusions_subset_mentioned {e : EdgeId} {edge : Edge} (h : g.edge? e = some edge) :
    edge.dependency.exclusions ⊆ mentioned g := by
  intro x hx
  refine SortedSet.mem_ofList.2 (List.mem_flatMap.2 ⟨edge, ?_, hx⟩)
  exact Array.mem_toList_iff.2 (Array.mem_of_getElem? h)

theorem size_le_entries {set : Exclusions} (h : set ⊆ mentioned g) : set.size ≤ entries g := by
  have hsub : set.toList.Subperm (g.edges.toList.flatMap (·.dependency.exclusions.toList)) :=
    set.nodup_toList.subperm fun x hx => SortedSet.mem_ofList.1 (h x hx)
  exact hsub.length_le

/-- Every exclusion met on the way is one that some edge mentions. -/
structure Mentions (g : CandidateGraph) (w : Walk) : Prop where
  exclusions : ∀ id set, w.exclusions.get? id = some set → set ⊆ mentioned g
  pending : ∀ e inherited, (e, inherited) ∈ w.pending → inherited ⊆ mentioned g

theorem mentions_start : Mentions g (start g) := by
  refine ⟨fun id set h => (by cases h), ?_⟩
  intro e inherited hmem
  obtain ⟨e', -, heq⟩ := List.mem_filterMap.1 hmem
  obtain ⟨edge, hedge, hpair⟩ := Option.map_eq_some_iff.1 heq
  obtain ⟨-, rfl⟩ := Prod.mk.inj hpair
  exact exclusions_subset_mentioned hedge

theorem mentions_arrive {w : Walk} {e : EdgeId} {inherited : Exclusions}
    {rest : List (EdgeId × Exclusions)} (hpending : w.pending = (e, inherited) :: rest)
    (hw : Mentions g w) : Mentions g ({ w with pending := rest }.arrive g guide e inherited) := by
  have hrest : ∀ e' inherited', (e', inherited') ∈ rest → inherited' ⊆ mentioned g :=
    fun e' inherited' hmem =>
      hw.pending e' inherited' (by rw [hpending]; exact List.mem_cons_of_mem _ hmem)
  cases h : g.edge? e with
  | none =>
      rw [arrive_none h]
      exact ⟨hw.exclusions, hrest⟩
  | some edge =>
      have hshared : shared { w with pending := rest } edge.target inherited ⊆ mentioned g :=
        SortedSet.Subset.trans (Exclusions.shared_subset_inherited _ _)
          (hw.pending e inherited (by rw [hpending]; exact List.mem_cons_self))
      constructor
      · intro id set hset
        rw [get?_exclusions_arrive h] at hset
        by_cases hid : id = edge.target
        · rw [if_pos hid] at hset
          obtain rfl := Option.some.inj hset
          exact hshared
        · rw [if_neg hid] at hset
          exact hw.exclusions id set hset
      · intro e' inherited' hmem
        rw [pending_arrive h, List.mem_append, List.mem_flatMap] at hmem
        rcases hmem with hmem | ⟨c, -, hmem⟩
        · exact hrest e' inherited' hmem
        · obtain ⟨edge', -, hedge', -, rfl⟩ := mem_onward.1 hmem
          intro x hx
          rcases SortedSet.mem_union.1 hx with hx | hx
          · exact hshared x hx
          · exact exclusions_subset_mentioned hedge' x hx

/-- How often the exclusions of a module may still shrink. -/
def slack (g : CandidateGraph) (w : Walk) (id : ModuleId) : Nat :=
  match w.exclusions.get? id with
  | none => entries g + 1
  | some set => set.size

/-- How often the edges of a version may still be taken up. -/
def credit (g : CandidateGraph) (w : Walk) (c : Coordinates) : Nat :=
  (if c ∈ w.nodes then 0 else 1) + slack g w c.id

/-- The steps that a walk may still take. -/
def work (g : CandidateGraph) (w : Walk) : Nat :=
  w.pending.length + (g.nodes.keys.map fun c => (g.outgoing c).length * credit g w c).sum

section Work

variable {w : Walk} {e : EdgeId} {edge : Edge} {inherited : Exclusions}

theorem slack_of_ne (h : g.edge? e = some edge) {id : ModuleId} (hid : id ≠ edge.target) :
    slack g (w.arrive g guide e inherited) id = slack g w id := by
  unfold slack
  rw [get?_exclusions_arrive h, if_neg hid]

theorem slack_target_le (h : g.edge? e = some edge) (hinherited : inherited ⊆ mentioned g) :
    slack g (w.arrive g guide e inherited) edge.target ≤ slack g w edge.target := by
  unfold slack
  rw [get?_exclusions_arrive h, if_pos rfl]
  cases hset : w.exclusions.get? edge.target with
  | none =>
      exact Nat.le_succ_of_le (size_le_entries
        (SortedSet.Subset.trans (Exclusions.shared_subset_inherited _ _) hinherited))
  | some set => exact SortedSet.size_le_of_subset (Exclusions.shared_subset_before hset inherited)

theorem slack_target_lt (h : g.edge? e = some edge) (hinherited : inherited ⊆ mentioned g)
    (hshrank : w.exclusions.get? edge.target ≠ some (w.shared edge.target inherited)) :
    slack g (w.arrive g guide e inherited) edge.target < slack g w edge.target := by
  unfold slack
  rw [get?_exclusions_arrive h, if_pos rfl]
  cases hset : w.exclusions.get? edge.target with
  | none =>
      exact Nat.lt_succ_of_le (size_le_entries
        (SortedSet.Subset.trans (Exclusions.shared_subset_inherited _ _) hinherited))
  | some set =>
      refine SortedSet.size_lt_of_subset (Exclusions.shared_subset_before hset inherited) ?_
      intro heq
      exact hshrank (by rw [hset, heq])

theorem credit_le (h : g.edge? e = some edge) (hinherited : inherited ⊆ mentioned g)
    (c : Coordinates) : credit g (w.arrive g guide e inherited) c ≤ credit g w c := by
  have hslack : slack g (w.arrive g guide e inherited) c.id ≤ slack g w c.id := by
    by_cases hid : c.id = edge.target
    · rw [hid]
      exact slack_target_le h hinherited
    · exact Nat.le_of_eq (slack_of_ne h hid)
  have hnode : c ∈ w.nodes → c ∈ (w.arrive g guide e inherited).nodes :=
    fun hc => (mem_nodes_arrive h).2 (Or.inl hc)
  unfold credit
  split <;> split <;> first | omega | simp_all

/-- Taking up the edges of a version costs it at least one unit of its credit. -/
theorem credit_lt (h : g.edge? e = some edge) (hinherited : inherited ⊆ mentioned g)
    {c : Coordinates} (hc : c ∈ w.expanded guide edge inherited) :
    credit g (w.arrive g guide e inherited) c + 1 ≤ credit g w c := by
  have hid := id_of_mem_expanded hc
  have hin := mem_nodes_of_mem_expanded h hc
  unfold credit
  rw [if_pos hin]
  by_cases hshrank : w.exclusions.get? edge.target ≠ some (w.shared edge.target inherited)
  · have hlt : slack g (w.arrive g guide e inherited) edge.target < slack g w edge.target :=
      slack_target_lt h hinherited hshrank
    rw [hid]
    omega
  · have hnew : c ∉ w.nodes := by
      unfold expanded at hc
      rw [if_neg hshrank] at hc
      exact (mem_fresh.1 hc).2.2
    have hle : slack g (w.arrive g guide e inherited) edge.target ≤ slack g w edge.target :=
      slack_target_le h hinherited
    rw [if_neg hnew, hid]
    omega

theorem nodup_expanded : (w.expanded guide edge inherited).Nodup := by
  unfold expanded
  split
  · exact (SortedSet.nodup_toList _).filter _
  · unfold fresh
    refine List.Nodup.filter _ ?_
    cases (edge.version? guide).map edge.target.atVersion <;> simp

end Work

theorem length_outgoing_of_not_mem {c : Coordinates} (h : c ∉ g.nodes.keys) :
    (g.outgoing c).length = 0 := by
  unfold CandidateGraph.outgoing CandidateGraph.node?
  cases hnode : g.nodes.get? c with
  | none => rfl
  | some n => exact absurd (SortedMap.mem_keys_iff.2 ⟨n, hnode⟩) h

theorem work_arrive {w : Walk} {e : EdgeId} {inherited : Exclusions}
    {rest : List (EdgeId × Exclusions)} (hpending : w.pending = (e, inherited) :: rest)
    (hw : Mentions g w) :
    work g ({ w with pending := rest }.arrive g guide e inherited) < work g w := by
  unfold work
  rw [hpending, List.length_cons]
  have hinherited : inherited ⊆ mentioned g :=
    hw.pending e inherited (by rw [hpending]; exact List.mem_cons_self)
  cases h : g.edge? e with
  | none =>
      rw [arrive_none h]
      exact Nat.add_lt_add_right (Nat.lt_succ_self _) _
  | some edge =>
      let before : Walk := { w with pending := rest }
      let after := before.arrive g guide e inherited
      let taken := before.expanded guide edge inherited
      have hlength : after.pending.length ≤
          rest.length + (taken.map fun c => (g.outgoing c).length).sum := by
        rw [pending_arrive h, List.length_append]
        refine Nat.add_le_add_left (length_flatMap_le ?_) _
        intro c _
        exact List.length_filterMap_le _ _
      have hspread : (taken.map fun c => (g.outgoing c).length).sum ≤
          (g.nodes.keys.map fun c => if c ∈ taken then (g.outgoing c).length else 0).sum :=
        sum_map_le_sum_map_ite _ nodup_expanded fun c _ hc => length_outgoing_of_not_mem hc
      have hpay : (g.nodes.keys.map fun c => if c ∈ taken then (g.outgoing c).length else 0).sum +
          (g.nodes.keys.map fun c => (g.outgoing c).length * credit g after c).sum ≤
          (g.nodes.keys.map fun c => (g.outgoing c).length * credit g w c).sum := by
        rw [← List.sum_map_add]
        refine List.sum_le_sum fun c _ => ?_
        have hle : credit g after c ≤ credit g w c := credit_le h hinherited c
        by_cases hc : c ∈ taken
        · have hlt : credit g after c + 1 ≤ credit g w c := credit_lt h hinherited hc
          calc (if c ∈ taken then (g.outgoing c).length else 0) +
                (g.outgoing c).length * credit g after c
              = (g.outgoing c).length * (credit g after c + 1) := by
                rw [if_pos hc, Nat.mul_succ, Nat.add_comm]
            _ ≤ (g.outgoing c).length * credit g w c := Nat.mul_le_mul_left _ hlt
        · rw [if_neg hc, Nat.zero_add]
          exact Nat.mul_le_mul_left _ hle
      change after.pending.length +
        (g.nodes.keys.map fun c => (g.outgoing c).length * credit g after c).sum < _
      omega

theorem run_isSome {steps : Nat} {w : Walk} (hw : Mentions g w) (hwork : work g w ≤ steps) :
    (w.run g guide steps).isSome = true := by
  induction steps generalizing w with
  | zero =>
      have hempty : w.pending = [] := List.length_eq_zero_iff.1 (by unfold work at hwork; omega)
      unfold run
      rw [hempty]
      rfl
  | succ steps ih =>
      cases hpending : w.pending with
      | nil =>
          unfold run
          rw [hpending]
          rfl
      | cons p rest =>
          obtain ⟨e, inherited⟩ := p
          have hlt : work g ({ w with pending := rest }.arrive g guide e inherited) < work g w :=
            work_arrive hpending hw
          unfold run
          rw [hpending, step_cons w e inherited rest hpending]
          exact ih (mentions_arrive hpending hw) (by omega)

theorem work_start_le : work g (start g) ≤ bound g := by
  have hpending : (start g).pending.length ≤ g.rootEdges.length := List.length_filterMap_le _ _
  have hcredit : ∀ c, credit g (start g) c = entries g + 2 := by
    intro c
    have hnew : c ∉ (start g).nodes := SortedSet.not_mem_empty c
    unfold credit
    rw [if_neg hnew]
    change 1 + (entries g + 1) = _
    omega
  have houtgoing : g.nodes.keys.map (fun c => (g.outgoing c).length) =
      g.nodes.values.map (·.outgoing.length) := by
    unfold SortedMap.keys SortedMap.values
    rw [List.map_map, List.map_map]
    refine List.map_congr_left ?_
    rintro ⟨c, n⟩ hmem
    have hnode : g.nodes.get? c = some n := SortedMap.mem_entries_iff.1 hmem
    simp [CandidateGraph.outgoing, CandidateGraph.node?, hnode]
  have hsum : (g.nodes.keys.map fun c => (g.outgoing c).length * credit g (start g) c).sum =
      (g.nodes.values.flatMap (·.outgoing)).length * (entries g + 2) := by
    simp only [hcredit]
    rw [List.sum_map_mul_right, houtgoing, List.length_flatMap]
  have hbound : bound g = g.rootEdges.length +
      (entries g + 3) * (g.nodes.values.flatMap (·.outgoing)).length + 1 := rfl
  unfold work
  rw [hsum, hbound, Nat.mul_comm]
  have hle : (entries g + 2) * (g.nodes.values.flatMap (·.outgoing)).length ≤
      (entries g + 3) * (g.nodes.values.flatMap (·.outgoing)).length :=
    Nat.mul_le_mul_right _ (by omega)
  omega

end Walk

/-! ## Live graphs -/

section Live

variable {g : CandidateGraph} {guide : Guide} {live : Live}

/-- There is a live graph under every guide. -/
theorem walk_isSome (g : CandidateGraph) (guide : Guide) : (walk g guide).isSome = true := by
  unfold walk
  rw [Option.isSome_map]
  exact Walk.run_isSome Walk.mentions_start Walk.work_start_le

theorem walk_eq_some (h : walk g guide = some live) :
    ∃ w, (Walk.start g).run g guide (Walk.bound g) = some w ∧ live = Live.ofWalk g w := by
  unfold walk at h
  obtain ⟨w, hrun, hlive⟩ := Option.map_eq_some_iff.1 h
  exact ⟨w, hrun, hlive.symm⟩

theorem closed_of_walk (h : walk g guide = some live) : live.region.Closed g guide := by
  obtain ⟨w, hrun, rfl⟩ := walk_eq_some h
  exact Walk.closed_of_run hrun

theorem le_of_walk (h : walk g guide = some live) {R : Region} (hR : R.Closed g guide) :
    live.region.Le R := by
  obtain ⟨w, hrun, rfl⟩ := walk_eq_some h
  exact Walk.le_of_run hR hrun

theorem reached_of_walk (h : walk g guide = some live) {c : Coordinates} (hc : c ∈ live.nodes) :
    ∃ set, live.exclusions.get? c.id = some set := by
  obtain ⟨w, hrun, rfl⟩ := walk_eq_some h
  exact Walk.reached_of_run hrun c hc

end Live

end Lockstep
