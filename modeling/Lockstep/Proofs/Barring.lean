import Lockstep.Proofs.Provision
import Lockstep.Proofs.Settled

/-!
# Exclusions on the ways to a module

The exclusions in force for a module are those that all open ways to it list,
where a way is open if each of its edges is let through at its source
(`Rounds.Settles.mem_exclusions_iff`). `Resolution.Escapes` says so without any
set of exclusions: an edge is let through as soon as each exclusion of its
target, taken alone, is missing from some open way to its source.

So a module is left out if one exclusion of it is on every way
(`Resolution.unselected_iff_shut`). It is not left out if every way has some
exclusion of it, but a group on one way and the module itself on another: ways
are merged entry by entry, and the two entries have nothing in common.
-/

namespace Lockstep

/-- The edges of the root. -/
def CandidateGraph.firstEdges (g : CandidateGraph) : List Edge :=
  g.rootEdges.filterMap g.edge?

namespace Resolution

/-! ## Ways -/

/-- A way through selected versions: an edge of the root, then each time an edge of the selected
version of the target before. -/
inductive Way (g : CandidateGraph) (res : Resolution) : List Edge → ModuleId → Prop
  | root {e : EdgeId} {edge : Edge} : e ∈ g.rootEdges → g.edge? e = some edge →
    Way g res [edge] edge.target
  | onward {path : List Edge} {id : ModuleId} {v : String} {e : EdgeId} {edge : Edge} :
    Way g res path id → res.versionOf? id = some v → e ∈ g.outgoing (id.atVersion v) →
    g.edge? e = some edge → Way g res (path ++ [edge]) edge.target

/-- An open way leads to the module on which no edge lists the exclusion. A way stays open along an
edge if each exclusion of the target is missing from some open way to the source; these need not be
the same way. -/
inductive Escapes (g : CandidateGraph) (res : Resolution) : Exclusion → ModuleId → Prop
  | root {x : Exclusion} {e : EdgeId} {edge : Edge} : e ∈ g.rootEdges → g.edge? e = some edge →
    x ∉ edge.dependency.exclusions → Escapes g res x edge.target
  | onward {x : Exclusion} {id : ModuleId} {v : String} {e : EdgeId} {edge : Edge} :
    Escapes g res x id → res.versionOf? id = some v → e ∈ g.outgoing (id.atVersion v) →
    g.edge? e = some edge → (∀ y : Exclusion, y.covers edge.target = true → Escapes g res y id) →
    x ∉ edge.dependency.exclusions → Escapes g res x edge.target

/-- Every way to the module has an edge before its last one that excludes the module. -/
def Barred (g : CandidateGraph) (res : Resolution) (id : ModuleId) : Prop :=
  ∀ path, res.Way g path id →
    ∃ edge ∈ path.dropLast, edge.dependency.exclusions.exclude id = true

/-- No edge of the root leads to the module, and each selected version with an edge to it has one
exclusion of the module on all open ways. -/
structure Shut (g : CandidateGraph) (res : Resolution) (id : ModuleId) : Prop where
  root : ∀ edge ∈ g.firstEdges, edge.target ≠ id
  onward : ∀ source v, res.versionOf? source = some v → ∀ e ∈ g.outgoing (source.atVersion v),
    ∀ edge, g.edge? e = some edge → edge.target = id →
      ∃ x : Exclusion, x.covers id = true ∧ ¬res.Escapes g x source

variable {g : CandidateGraph} {res : Resolution} {path : List Edge} {id : ModuleId}

/-- Every way begins with an edge of the root. -/
theorem Way.exists_first (h : res.Way g path id) :
    ∃ edge ∈ g.firstEdges, ∃ rest, path = edge :: rest := by
  induction h with
  | root he hedge => exact ⟨_, List.mem_filterMap.2 ⟨_, he, hedge⟩, [], rfl⟩
  | onward _ _ _ _ ih =>
      obtain ⟨edge, hfirst, rest, rfl⟩ := ih
      exact ⟨edge, hfirst, _, rfl⟩

/-- If no edge of the root leads to a module, every way to it has one before its last edge. -/
theorem Way.exists_first_mem_dropLast (h : res.Way g path id)
    (hroot : ∀ edge ∈ g.firstEdges, edge.target ≠ id) :
    ∃ edge ∈ g.firstEdges, edge ∈ path.dropLast := by
  cases h with
  | root he hedge => exact absurd rfl (hroot _ (List.mem_filterMap.2 ⟨_, he, hedge⟩))
  | onward hway _ _ _ =>
      obtain ⟨edge, hfirst, rest, rfl⟩ := hway.exists_first
      refine ⟨edge, hfirst, ?_⟩
      rw [List.dropLast_concat]
      exact List.mem_cons_self

theorem Escapes.exists_way {x : Exclusion} (h : res.Escapes g x id) :
    ∃ path, res.Way g path id ∧ ∀ edge ∈ path, x ∉ edge.dependency.exclusions := by
  induction h with
  | root he hedge hx =>
      refine ⟨_, .root he hedge, ?_⟩
      intro edge hmem
      rwa [List.mem_singleton.1 hmem]
  | onward _ hv he hedge _ hx ih =>
      obtain ⟨path, hway, hpath⟩ := ih
      refine ⟨_, .onward hway hv he hedge, ?_⟩
      intro edge hmem
      rcases List.mem_append.1 hmem with hmem | hmem
      · exact hpath edge hmem
      · rwa [List.mem_singleton.1 hmem]

/-- An exclusion that no edge mentions is on no way at all. -/
theorem Escapes.of_not_mentioned {x y : Exclusion} (h : res.Escapes g x id)
    (hy : y ∉ Walk.mentioned g) : res.Escapes g y id := by
  induction h with
  | root he hedge _ =>
      exact .root he hedge fun hmem => hy (Walk.exclusions_subset_mentioned hedge y hmem)
  | onward _ hv he hedge hopen _ ih _ =>
      exact .onward ih hv he hedge hopen fun hmem =>
        hy (Walk.exclusions_subset_mentioned hedge y hmem)

open Classical in
/-- The exclusions of a set that are on every open way to a module. -/
noncomputable def barring (g : CandidateGraph) (res : Resolution) (among : Exclusions)
    (id : ModuleId) : Exclusions :=
  among.filter fun x => decide (¬res.Escapes g x id)

open Classical in
theorem mem_barring {among : Exclusions} {x : Exclusion} :
    x ∈ res.barring g among id ↔ x ∈ among ∧ ¬res.Escapes g x id := by
  unfold barring
  rw [SortedSet.mem_filter, decide_eq_true_iff]

/-- The region of a resolution, with the exclusions that are on every open way added to those in
force. -/
noncomputable def barredRegion (g : CandidateGraph) (res : Resolution) (among : Exclusions) :
    Region :=
  ⟨(· ∈ res.live.nodes), fun id =>
    (res.live.exclusions.get? id).map (·.union (res.barring g among id))⟩

theorem exclusions_barredRegion {among set : Exclusions}
    (hset : res.live.exclusions.get? id = some set) :
    (res.barredRegion g among).exclusions id = some (set.union (res.barring g among id)) := by
  show (res.live.exclusions.get? id).map _ = _
  rw [hset, Option.map_some]

end Resolution

theorem Exclusions.exclude_eq_false_iff {set : Exclusions} {id : ModuleId} :
    set.exclude id = false ↔ ∀ x : Exclusion, x.covers id = true → x ∉ set := by
  unfold exclude SortedSet.any
  rw [List.any_eq_false]
  exact ⟨fun h x hx hmem => h x hmem hx, fun h x hmem hx => h x hx hmem⟩

namespace Rounds.Settles

variable {order : VersionOrder} {g : CandidateGraph} {constraints : SortedSet Constraint}
  {r : Rounds} {live : Live} {round : Round} (h : r.Settles order g constraints live round)

include h

/-! ## The exclusions in force -/

/-- An exclusion that is missing from an open way is not in force at its end. -/
theorem not_mem_of_escapes {x : Exclusion} {id : ModuleId}
    (hx : (Resolution.ofRound order g live round).Escapes g x id) :
    ∃ set, live.exclusions.get? id = some set ∧ x ∉ set := by
  have hclosed := closed_of_walk h.walked
  -- on the open way; the second hypothesis lets each edge of it through
  induction hx with
  | root he hedge hx =>
      obtain ⟨set, hset, hsub, -⟩ := hclosed.root _ he _ hedge
      exact ⟨set, hset, fun hmem => hx (hsub _ hmem)⟩
  | @onward _ id v _ edge _ hv he hedge _ hx ih ihopen =>
      have hlive : id.atVersion v ∈ live.nodes := h.mem_nodes_iff_versionOf?.2 hv
      obtain ⟨set, hset, hnot⟩ := ih
      have hlet : set.exclude edge.target = false := by
        refine Exclusions.exclude_eq_false_iff.2 fun y hy => ?_
        obtain ⟨set', hset', hnot'⟩ := ihopen y hy
        rw [hset] at hset'
        rwa [Option.some.inj hset']
      obtain ⟨set', hset', hsub, -⟩ := hclosed.onward _ hlive set hset _ he _ hedge hlet
      refine ⟨set', hset', fun hmem => ?_⟩
      rcases SortedSet.mem_union.1 (hsub _ hmem) with hmem | hmem
      · exact hnot hmem
      · exact hx hmem

/-- What is on every open way may be added to the exclusions in force. -/
theorem closed_barredRegion {among : Exclusions} (hamong : Walk.mentioned g ⊆ among) :
    ((Resolution.ofRound order g live round).barredRegion g among).Closed g r.guide := by
  have hclosed := closed_of_walk h.walked
  constructor
  · intro e he edge hedge
    obtain ⟨set, hset, hsub, hnode⟩ := hclosed.root e he edge hedge
    refine ⟨_, Resolution.exclusions_barredRegion hset, ?_, hnode⟩
    intro x hx
    rcases SortedSet.mem_union.1 hx with hx | hx
    · exact hsub x hx
    · by_contra hnot
      exact (Resolution.mem_barring.1 hx).2 (.root he hedge hnot)
  · intro c hc more hmore e he edge hedge hlet
    obtain ⟨set, hset, rfl⟩ := Option.map_eq_some_iff.1 hmore
    have hlet' := Exclusions.exclude_eq_false_of_subset
      (fun x hx => SortedSet.mem_union.2 (Or.inl hx)) hlet
    obtain ⟨set', hset', hsub, hnode⟩ := hclosed.onward c hc set hset e he edge hedge hlet'
    refine ⟨_, Resolution.exclusions_barredRegion hset', ?_, hnode⟩
    intro x hx
    rcases SortedSet.mem_union.1 hx with hx | hx
    · rcases SortedSet.mem_union.1 (hsub x hx) with hx | hx
      · exact SortedSet.mem_union.2 (Or.inl (SortedSet.mem_union.2 (Or.inl hx)))
      · exact SortedSet.mem_union.2 (Or.inr hx)
    · -- an exclusion that is new at the source's module or at the edge would escape along it
      obtain ⟨hxamong, hxbarred⟩ := Resolution.mem_barring.1 hx
      by_contra hnot
      have hsource : (Resolution.ofRound order g live round).Escapes g x c.id := by
        by_contra hbarred
        exact hnot (SortedSet.mem_union.2 (Or.inl (SortedSet.mem_union.2
          (Or.inr (Resolution.mem_barring.2 ⟨hxamong, hbarred⟩)))))
      refine hxbarred (.onward hsource (h.mem_nodes_iff_versionOf?.1 hc) he hedge ?_
        fun hmem => hnot (SortedSet.mem_union.2 (Or.inr hmem)))
      intro y hy
      by_cases hmentioned : y ∈ Walk.mentioned g
      · by_contra hbarred
        exact Exclusions.exclude_eq_false_iff.1 hlet y hy (SortedSet.mem_union.2
          (Or.inr (Resolution.mem_barring.2 ⟨hamong y hmentioned, hbarred⟩)))
      · exact hsource.of_not_mentioned hmentioned

/-- The exclusions in force are those that all open ways list. -/
theorem mem_exclusions_iff {id : ModuleId} {set : Exclusions}
    (hset : live.exclusions.get? id = some set) {x : Exclusion} :
    x ∈ set ↔ ¬(Resolution.ofRound order g live round).Escapes g x id := by
  constructor
  · intro hx hescapes
    obtain ⟨set', hset', hnot⟩ := h.not_mem_of_escapes hescapes
    rw [hset] at hset'
    rw [← Option.some.inj hset'] at hnot
    exact hnot hx
  · -- the walk gives the least closed region, so it is inside the one with more exclusions
    intro hbarred
    have hamong : Walk.mentioned g ⊆ (Walk.mentioned g).insert x :=
      fun y hy => SortedSet.mem_insert.2 (Or.inr hy)
    have hclosed := h.closed_barredRegion hamong
    obtain ⟨more, hmore, hsub⟩ := (le_of_walk h.walked hclosed).exclusions id set hset
    obtain ⟨set', -, rfl⟩ := Option.map_eq_some_iff.1 hmore
    exact hsub x (SortedSet.mem_union.2
      (Or.inr (Resolution.mem_barring.2 ⟨SortedSet.mem_insert.2 (Or.inl rfl), hbarred⟩)))

/-! ## Modules left out -/

/-- The exclusions in force let an edge through if each of those of its target escapes. -/
theorem exclude_eq_false_iff {id target : ModuleId} {v : String}
    (hv : (Resolution.ofRound order g live round).versionOf? id = some v) :
    (Live.exclusionsOf live.exclusions (id.atVersion v)).exclude target = false ↔
      ∀ x : Exclusion, x.covers target = true →
        (Resolution.ofRound order g live round).Escapes g x id := by
  have hlive : id.atVersion v ∈ live.nodes := h.mem_nodes_iff_versionOf?.2 hv
  obtain ⟨set, hset⟩ := reached_of_walk h.walked hlive
  rw [Live.exclusionsOf_eq hset, Exclusions.exclude_eq_false_iff]
  refine forall_congr' fun x => imp_congr_right fun _ => ?_
  rw [h.mem_exclusions_iff hset, not_not]
  rfl

/-- The modules that are not selected are those that are shut out. -/
theorem versionOf?_eq_none_iff {id : ModuleId} :
    (Resolution.ofRound order g live round).versionOf? id = none ↔
      (Resolution.ofRound order g live round).Shut g id := by
  rw [Option.eq_none_iff_forall_ne_some, ← not_exists, ← h.reaches_iff]
  constructor
  · intro hnot
    constructor
    · rintro edge hfirst rfl
      obtain ⟨e, he, hedge⟩ := List.mem_filterMap.1 hfirst
      exact hnot (.root he hedge)
    · rintro source v hv e he edge hedge rfl
      by_contra hall
      push Not at hall
      exact hnot (.onward (h.reaches_iff.2 ⟨v, hv⟩) hv he hedge
        ((h.exclude_eq_false_iff hv).2 hall))
  · rintro ⟨hroot, honward⟩ hreaches
    cases hreaches with
    | root he hedge => exact hroot _ (List.mem_filterMap.2 ⟨_, he, hedge⟩) rfl
    | onward _ hv he hedge hlet =>
        obtain ⟨x, hx, hbarred⟩ := honward _ _ hv _ he _ hedge rfl
        exact hbarred ((h.exclude_eq_false_iff hv).1 hlet x hx)

end Rounds.Settles

namespace Resolution

/-- One exclusion of a module that every way to it lists before its last edge shuts it out. -/
theorem shut_of_listed {g : CandidateGraph} {res : Resolution} {id : ModuleId} {x : Exclusion}
    (hx : x.covers id = true) (hlisted : ∀ path, res.Way g path id →
      ∃ edge ∈ path.dropLast, x ∈ edge.dependency.exclusions) : res.Shut g id := by
  constructor
  · rintro edge hfirst rfl
    obtain ⟨e, he, hedge⟩ := List.mem_filterMap.1 hfirst
    obtain ⟨_, hmem, -⟩ := hlisted _ (.root he hedge)
    cases hmem
  · rintro source v hv e he edge hedge rfl
    refine ⟨x, hx, fun hescapes => ?_⟩
    obtain ⟨path, hway, hpath⟩ := hescapes.exists_way
    obtain ⟨edge', hmem, hlist⟩ := hlisted _ (.onward hway hv he hedge)
    rw [List.dropLast_concat] at hmem
    exact hpath edge' hmem hlist

/-- A resolution without errors leaves out just the modules that are shut out; among them are those
that have one exclusion before the last edge of every way. -/
theorem unselected_iff_shut {order : VersionOrder} {g : CandidateGraph}
    {constraints : SortedSet Constraint} {res : Resolution}
    (hres : g.ResolvesTo order constraints res) (herrors : res.errors = []) :
    (∀ id, res.versionOf? id = none ↔ res.Shut g id) ∧
    ∀ (id : ModuleId) (x : Exclusion), x.covers id = true →
      (∀ path, res.Way g path id → ∃ edge ∈ path.dropLast, x ∈ edge.dependency.exclusions) →
      res.versionOf? id = none := by
  obtain ⟨rounds, live, round, hrun, rfl⟩ := hres
  obtain ⟨r, -, hsettles⟩ := Rounds.exists_settles hrun herrors
  refine ⟨fun id => hsettles.versionOf?_eq_none_iff, ?_⟩
  intro id x hx hlisted
  exact hsettles.versionOf?_eq_none_iff.2 (shut_of_listed hx hlisted)

end Resolution

/-! ### Two spellings of one exclusion -/

namespace Sample

def net (name : String) : ModuleId :=
  ⟨"net", name⟩

def requestOf (target : ModuleId) : Dependency :=
  { target, requirement := .exact "1" }

/-- Both `auth` and `base` depend on `core`, the only one to depend on `log`. -/
def logging : Catalog :=
  ⟨[{ coordinates := ⟨net "auth", "1"⟩, dependencies := [requestOf (net "core")] },
    { coordinates := ⟨net "base", "1"⟩, dependencies := [requestOf (net "core")] },
    { coordinates := ⟨net "core", "1"⟩, dependencies := [requestOf (id "log")] },
    describe "log" "1" []]⟩

/-- What the builder comes to for requests of `auth` and `base` with an exclusion each. -/
def loggingBuild (first second : Exclusion) : Option CandidateGraph × Unit :=
  ((Builder.start root
    [(requestOf (net "auth")).excluding first, (requestOf (net "base")).excluding second] ∅).run
    (logging.provider Version.semanticOrder).lookup [] 8).run ()

end Sample

theorem Resolution.unselected_over_one_spelling : ∃ g res,
    Sample.loggingBuild (.ofModule (Sample.id "log")) (.ofModule (Sample.id "log")) =
      (some g, ()) ∧
    g.ResolvesTo Version.semanticOrder ∅ res ∧ res.errors = [] ∧ res.Shut g (Sample.id "log") ∧
    res.versionOf? (Sample.id "log") = none := by
  have hfound :
      ((Sample.loggingBuild (.ofModule (Sample.id "log")) (.ofModule (Sample.id "log"))).1.any
        fun g => (resolve Version.semanticOrder g ∅).any fun res => res.errors = [] ∧
          ∀ edge ∈ g.firstEdges, edge.target ≠ Sample.id "log" ∧
            .ofModule (Sample.id "log") ∈ edge.dependency.exclusions) = true := by
    decide +kernel
  obtain ⟨g, hg, hresolved⟩ := (Option.any_eq_true _ _).1 hfound
  obtain ⟨res, hresolve, hcond⟩ := (Option.any_eq_true _ _).1 hresolved
  obtain ⟨herrors, hfirst⟩ := of_decide_eq_true hcond
  have hresolves := CandidateGraph.resolvesTo_of_resolve hresolve
  obtain ⟨hshut, hlisted⟩ := unselected_iff_shut hresolves herrors
  have hnone := hlisted (Sample.id "log") (.ofModule (Sample.id "log")) (by decide) ?_
  · exact ⟨g, res, by rw [← hg], hresolves, herrors, (hshut _).1 hnone, hnone⟩
  · intro path hway
    obtain ⟨edge, hmem, hdrop⟩ := hway.exists_first_mem_dropLast fun edge h => (hfirst edge h).1
    exact ⟨edge, hdrop, (hfirst edge hmem).2⟩

/-- Every way to `log` excludes it, and it is selected all the same. -/
theorem Resolution.selected_over_two_spellings : ∃ g res,
    Sample.loggingBuild (.ofGroup "org") (.ofModule (Sample.id "log")) = (some g, ()) ∧
    g.ResolvesTo Version.semanticOrder ∅ res ∧ res.errors = [] ∧
    res.Barred g (Sample.id "log") ∧ res.versionOf? (Sample.id "log") = some "1" := by
  have hfound :
      ((Sample.loggingBuild (.ofGroup "org") (.ofModule (Sample.id "log"))).1.any
        fun g => (resolve Version.semanticOrder g ∅).any fun res => res.errors = [] ∧
          res.versionOf? (Sample.id "log") = some "1" ∧
          ∀ edge ∈ g.firstEdges, edge.target ≠ Sample.id "log" ∧
            edge.dependency.exclusions.exclude (Sample.id "log") = true) = true := by
    decide +kernel
  obtain ⟨g, hg, hresolved⟩ := (Option.any_eq_true _ _).1 hfound
  obtain ⟨res, hresolve, hcond⟩ := (Option.any_eq_true _ _).1 hresolved
  obtain ⟨herrors, hversion, hfirst⟩ := of_decide_eq_true hcond
  refine ⟨g, res, by rw [← hg], CandidateGraph.resolvesTo_of_resolve hresolve, herrors, ?_,
    hversion⟩
  intro path hway
  obtain ⟨edge, hmem, hdrop⟩ := hway.exists_first_mem_dropLast fun edge h => (hfirst edge h).1
  exact ⟨edge, hdrop, (hfirst edge hmem).2⟩

end Lockstep
