import Lockstep.Proofs.Arena
import Mathlib.Data.List.Range

/-!
# Every edge has its place

In a graph under construction every number of an edge is listed once, for the
root or for the node that the edge leaves (`Arena.listed`). An edge leads
neither to the root nor back to the module that it leaves, and the edges that
are added for platforms are those that memberships call for, each one once
(`Orderly`). All of this follows from the invariant of the arena as soon as no
version of the root has been expanded and descriptors are those of their nodes
(`Arena.orderly`).
-/

namespace Lockstep

/-! ## Memberships of published platforms -/

/-- A module with this metadata is a member of a published platform, by a rule or by the metadata
itself. Neither the module nor the root counts as a platform. -/
structure Descriptor.Joins (rules : PlatformRules) (root : Coordinates) (d : Descriptor)
    (platform : ModuleId) : Prop where
  other : platform ≠ d.id
  apart : platform ≠ root.id
  joined : (∃ rule ∈ rules, rule.members.includes d.id = true ∧ rule.kind = .published ∧
      rule.platform = platform) ∨
    ∃ m ∈ d.belongsTo, m.isVirtual = false ∧ m.platform = platform

/-- What an edge to a platform asks for: the version of the module that it leaves. -/
def Dependency.onPlatform (platform : ModuleId) (version : String) : Dependency :=
  { target := platform, requirement := .exact version, category := some .platform }

namespace Builder

variable {rules : PlatformRules} {root c : Coordinates} {d : Descriptor}

theorem kind_eq_published_iff {m : Membership} : m.kind = .published ↔ m.isVirtual = false := by
  unfold Membership.kind
  cases m.isVirtual <;> simp

theorem mem_publishedPlatforms {p : ModuleId} :
    p ∈ publishedPlatforms rules root d ↔ d.Joins rules root p := by
  unfold publishedPlatforms PlatformRules.memberships
  rw [SortedSet.mem_ofList, List.mem_filter, List.mem_append, Bool.and_eq_true, bne_iff_ne,
    bne_iff_ne]
  simp only [List.mem_filterMap, List.mem_filter, Option.ite_none_right_eq_some,
    Option.some.injEq, kind_eq_published_iff, and_assoc]
  constructor
  · rintro ⟨hjoined, hother, hapart⟩
    exact ⟨hother, hapart, hjoined⟩
  · rintro ⟨hother, hapart, hjoined⟩
    exact ⟨hjoined, hother, hapart⟩

/-- The synthetic dependencies of a version are those on the platforms of its module. -/
theorem synthetic_mem_outgoingOf_iff {dep : Dependency} :
    (dep, true) ∈ outgoingOf rules root c d ↔
      ∃ p, d.Joins rules root p ∧ dep = .onPlatform p c.version := by
  unfold outgoingOf
  rw [List.mem_append, List.mem_map, List.mem_map]
  constructor
  · rintro (⟨own, -, heq⟩ | ⟨p, hp, heq⟩)
    · simp at heq
    · exact ⟨p, mem_publishedPlatforms.1 hp, ((Prod.mk.inj heq).1).symm⟩
  · rintro ⟨p, hp, rfl⟩
    exact Or.inr ⟨p, mem_publishedPlatforms.2 hp, rfl⟩

theorem target_ne_of_mem_outgoingOf {r : Dependency × Bool} (hid : d.id = c.id)
    (h : r ∈ outgoingOf rules root c d) : r.1.target ≠ c.id := by
  unfold outgoingOf at h
  rcases List.mem_append.1 h with h | h
  · obtain ⟨dep, hdep, rfl⟩ := List.mem_map.1 h
    have hkept := (List.mem_filter.1 hdep).2
    rw [Bool.and_eq_true, bne_iff_ne] at hkept
    exact hkept.1
  · obtain ⟨p, hp, rfl⟩ := List.mem_map.1 h
    rw [← hid]
    exact (mem_publishedPlatforms.1 hp).other

/-- No two of the synthetic dependencies of a version are on one platform. -/
theorem pairwise_outgoingOf (rules : PlatformRules) (root c : Coordinates) (d : Descriptor) :
    (outgoingOf rules root c d).Pairwise fun r r' =>
      r.2 = true → r'.2 = true → r.1.target ≠ r'.1.target := by
  unfold outgoingOf
  refine List.pairwise_append.2 ⟨?_, ?_, ?_⟩
  · rw [List.pairwise_map]
    exact List.pairwise_of_forall fun _ _ htrue => absurd htrue Bool.false_ne_true
  · rw [List.pairwise_map]
    exact (SortedSet.nodup_toList _).imp fun hne _ _ => hne
  · intro r hr _ _ htrue
    obtain ⟨dep, -, rfl⟩ := List.mem_map.1 hr
    exact absurd htrue Bool.false_ne_true

end Builder

namespace CandidateGraph

variable {rules : PlatformRules} {dependencies : List (Dependency × Bool)} {g : CandidateGraph}
  {expanded : SortedSet Coordinates}

/-! ## The lists of numbers -/

theorem outgoing_of_node? {c : Coordinates} {n : Node} (hn : g.node? c = some n) :
    g.outgoing c = n.outgoing := by
  unfold outgoing
  rw [hn]
  rfl

/-- Two edges do not both lead to one platform for membership of it. -/
def Apart (g : CandidateGraph) (e e' : EdgeId) : Prop :=
  ∀ edge edge', g.edge? e = some edge → g.edge? e' = some edge' →
    edge.synthetic = true → edge'.synthetic = true → edge.target ≠ edge'.target

instance : Std.Symm g.Apart where
  symm _ _ h edge edge' hedge hedge' hsynthetic hsynthetic' heq :=
    h edge' edge hedge' hedge hsynthetic' hsynthetic heq.symm

theorem Carries.pairwise_apart {source : Coordinates} {ids : List EdgeId}
    {requests : List (Dependency × Bool)} (h : g.Carries source ids requests)
    (hrequests : requests.Pairwise fun r r' =>
      r.2 = true → r'.2 = true → r.1.target ≠ r'.1.target) : ids.Pairwise g.Apart := by
  obtain ⟨hnodup, hedges⟩ := h
  induction hedges with
  | nil => exact List.Pairwise.nil
  | @cons e r ids requests he hrest ih =>
      obtain ⟨hfirst, hrequests⟩ := List.pairwise_cons.1 hrequests
      obtain ⟨-, hnodup⟩ := List.nodup_cons.1 hnodup
      refine List.pairwise_cons.2 ⟨fun e' he' edge edge' hedge hedge' => ?_, ih hrequests hnodup⟩
      obtain ⟨before, hbefore, -, hdependency, hsynthetic⟩ := he
      obtain rfl := Option.some.inj (hbefore.symm.trans hedge)
      obtain ⟨after, hafter, -, hmem⟩ := Carries.exists_edge ⟨hnodup, hrest⟩ he'
      obtain rfl := Option.some.inj (hafter.symm.trans hedge')
      unfold Edge.target
      rw [hdependency, hsynthetic]
      exact hfirst _ hmem

namespace Arena

variable (h : Arena rules dependencies g expanded)

include h

theorem source_eq_of_mem_outgoing {c : Coordinates} {e : EdgeId} {edge : Edge}
    (he : e ∈ g.outgoing c) (hedge : g.edge? e = some edge) : edge.source = c := by
  obtain ⟨edge', hedge', hsource⟩ := h.source_of_mem_outgoing he
  obtain rfl := Option.some.inj (hedge.symm.trans hedge')
  exact hsource

theorem nodup_flatMap_outgoing {cs : List Coordinates} (hcs : cs.Nodup) :
    (cs.flatMap g.outgoing).Nodup := by
  refine List.nodup_flatMap.2 ⟨fun c _ => h.nodup_outgoing c, hcs.imp fun hne e he he' => hne ?_⟩
  obtain ⟨edge, hedge, rfl⟩ := h.source_of_mem_outgoing he
  exact h.source_eq_of_mem_outgoing he' hedge

/-- Only what has been expanded has edges. -/
theorem flatMap_outgoing_perm :
    (g.nodes.keys.flatMap g.outgoing).Perm (expanded.toList.flatMap g.outgoing) := by
  refine (List.perm_ext_iff_of_nodup (h.nodup_flatMap_outgoing g.nodes.nodup_keys)
    (h.nodup_flatMap_outgoing expanded.nodup_toList)).2 fun e => ?_
  rw [List.mem_flatMap, List.mem_flatMap]
  constructor
  · rintro ⟨c, -, he⟩
    exact ⟨c, h.expanded_of_mem_outgoing he, he⟩
  · rintro ⟨c, hc, he⟩
    obtain ⟨f, hf⟩ := h.known c hc
    obtain ⟨n, hn, -⟩ := finding?_eq_some_iff.1 hf
    exact ⟨c, SortedMap.mem_keys_iff.2 ⟨n, hn⟩, he⟩

/-- Every number is listed once. -/
theorem listed (hroot : g.root ∉ expanded) :
    (g.rootEdges ++ g.nodes.keys.flatMap g.outgoing).Perm (List.range g.edges.size) := by
  refine (h.flatMap_outgoing_perm.append_left g.rootEdges).trans ?_
  have hnodup : (g.rootEdges ++ expanded.toList.flatMap g.outgoing).Nodup := by
    refine h.root.nodup.append (h.nodup_flatMap_outgoing expanded.nodup_toList) fun e he he' => ?_
    obtain ⟨c, hc, he'⟩ := List.mem_flatMap.1 he'
    obtain ⟨edge, hedge, hsource⟩ := h.source_of_mem_rootEdges he
    rw [← h.source_eq_of_mem_outgoing he' hedge, hsource] at hc
    exact hroot hc
  have hrange : g.rootEdges ++ expanded.toList.flatMap g.outgoing ⊆ List.range g.edges.size := by
    intro e he
    rw [List.mem_range]
    rcases List.mem_append.1 he with he | he
    · obtain ⟨edge, hedge, -⟩ := h.source_of_mem_rootEdges he
      exact lt_size_of_edge? hedge
    · obtain ⟨c, -, he⟩ := List.mem_flatMap.1 he
      obtain ⟨edge, hedge, -⟩ := h.source_of_mem_outgoing he
      exact lt_size_of_edge? hedge
  -- There are as many numbers in the lists as there are edges.
  apply (List.subperm_of_subset hnodup hrange).perm_of_length_le
  rw [List.length_range, List.length_append, List.length_flatMap]
  exact Nat.le_of_eq h.size

/-- An edge is listed for the root or for the node that it leaves. -/
theorem place (hroot : g.root ∉ expanded) {e : EdgeId} {edge : Edge}
    (hedge : g.edge? e = some edge) :
    (edge.source = g.root ∧ (edge.dependency, edge.synthetic) ∈ dependencies) ∨
      e ∈ g.outgoing edge.source := by
  have hmem := (h.listed hroot).mem_iff.2 (List.mem_range.2 (lt_size_of_edge? hedge))
  rcases List.mem_append.1 hmem with he | he
  · left
    obtain ⟨edge', hedge', hsource, hrequest⟩ := h.root.exists_edge he
    obtain rfl := Option.some.inj (hedge.symm.trans hedge')
    exact ⟨hsource, hrequest⟩
  · right
    obtain ⟨c, -, he⟩ := List.mem_flatMap.1 he
    rw [h.source_eq_of_mem_outgoing he hedge]
    exact he

/-- A synthetic edge is listed for the node that it leaves, since the root declares its own. -/
theorem mem_outgoing_of_synthetic (hdeclared : ∀ r ∈ dependencies, r.2 = false)
    (hroot : g.root ∉ expanded) {e : EdgeId} {edge : Edge} (hedge : g.edge? e = some edge)
    (hsynthetic : edge.synthetic = true) : e ∈ g.outgoing edge.source := by
  rcases h.place hroot hedge with ⟨-, hmem⟩ | hmem
  · have hfalse := hdeclared _ hmem
    rw [hsynthetic] at hfalse
    cases hfalse
  · exact hmem

/-- An edge in the list of a node stands for a dependency that its metadata calls for. -/
theorem exists_descriptor {c : Coordinates} {e : EdgeId} {edge : Edge} (he : e ∈ g.outgoing c)
    (hedge : g.edge? e = some edge) : ∃ d, g.descriptor? c = some d ∧
      (edge.dependency, edge.synthetic) ∈ Builder.outgoingOf rules g.root c d := by
  obtain ⟨edge', hedge', -, hmem⟩ :=
    (h.outgoing c (h.expanded_of_mem_outgoing he)).exists_edge he
  obtain rfl := Option.some.inj (hedge.symm.trans hedge')
  exact mem_requestsOf.1 hmem

end Arena

/-! ## Graphs in order -/

/-- Edges have their numbers, their places and their ends, and queries their nodes. -/
structure Orderly (rules : PlatformRules) (g : CandidateGraph)
    (expanded : SortedSet Coordinates) : Prop where
  number : ∀ e edge, g.edge? e = some edge → edge.id = e
  /-- Every number is listed once, for the root or for one of the nodes. -/
  listed : (g.rootEdges ++ g.nodes.keys.flatMap g.outgoing).Perm (List.range g.edges.size)
  fromRoot : ∀ e ∈ g.rootEdges, ∃ edge, g.edge? e = some edge ∧ edge.source = g.root
  fromNode : ∀ c n, g.node? c = some n → n.coordinates = c ∧ ∀ e ∈ n.outgoing,
    ∃ edge d, g.edge? e = some edge ∧ edge.source = c ∧ g.descriptor? c = some d
  target : ∀ e edge, g.edge? e = some edge →
    edge.target ≠ g.root.id ∧ edge.target ≠ edge.source.id
  /-- A synthetic edge leads from a version to a platform of its module, at that version. -/
  synthetic : ∀ e edge, g.edge? e = some edge → edge.synthetic = true →
    ∃ d platform, g.descriptor? edge.source = some d ∧ d.coordinates = edge.source ∧
      d.Joins rules g.root platform ∧ edge.dependency = .onPlatform platform edge.source.version
  /-- Each such platform has one such edge. -/
  platforms : ∀ c ∈ expanded, ∀ d, g.descriptor? c = some d → ∀ platform,
    d.Joins rules g.root platform → ∃! e, ∃ edge, g.edge? e = some edge ∧
      edge.synthetic = true ∧ edge.source = c ∧ edge.target = platform
  answered : ∀ q v, g.outcome? q = some (.ok v) → ∃ n, g.node? (q.target.atVersion v) = some n

namespace Arena

variable (h : Arena rules dependencies g expanded)

include h

/-- The edges that an expanded version has for platforms are those for the platforms of its
module, each once. -/
theorem existsUnique_synthetic (hdeclared : ∀ r ∈ dependencies, r.2 = false)
    (hroot : g.root ∉ expanded) {c : Coordinates} (hc : c ∈ expanded) {d : Descriptor}
    (hd : g.descriptor? c = some d) {platform : ModuleId} (hjoins : d.Joins rules g.root platform) :
    ∃! e, ∃ edge, g.edge? e = some edge ∧ edge.synthetic = true ∧ edge.source = c ∧
      edge.target = platform := by
  have hcarries := h.outgoing c hc
  rw [requestsOf_of_descriptor? hd] at hcarries
  have hmem : (Dependency.onPlatform platform c.version, true) ∈
      Builder.outgoingOf rules g.root c d :=
    Builder.synthetic_mem_outgoingOf_iff.2 ⟨platform, hjoins, rfl⟩
  obtain ⟨e, he, edge, hedge, hsource, hdependency, hsynthetic⟩ := hcarries.exists_mem hmem
  have htarget : edge.target = platform := congrArg Dependency.target hdependency
  refine ⟨e, ⟨edge, hedge, hsynthetic, hsource, htarget⟩, ?_⟩
  rintro e' ⟨edge', hedge', hsynthetic', hsource', htarget'⟩
  have he' := h.mem_outgoing_of_synthetic hdeclared hroot hedge' hsynthetic'
  rw [hsource'] at he'
  by_contra hne
  have hpairwise := hcarries.pairwise_apart (Builder.pairwise_outgoingOf rules g.root c d)
  exact hpairwise.forall he' he hne edge' edge hedge' hedge hsynthetic' hsynthetic
    (htarget'.trans htarget.symm)

theorem orderly (hdeclared : ∀ r ∈ dependencies, r.2 = false)
    (hroot : ∀ c ∈ expanded, c.id ≠ g.root.id)
    (htells : ∀ c d, g.descriptor? c = some d → d.coordinates = c) :
    Orderly rules g expanded := by
  have hunexpanded : g.root ∉ expanded := fun hmem => hroot _ hmem rfl
  constructor
  case number => exact h.number
  case listed => exact h.listed hunexpanded
  case fromRoot => exact fun e he => h.source_of_mem_rootEdges he
  case fromNode =>
    intro c n hn
    refine ⟨h.coordinates c n hn, fun e he => ?_⟩
    rw [← outgoing_of_node? hn] at he
    obtain ⟨edge, hedge, hsource⟩ := h.source_of_mem_outgoing he
    obtain ⟨d, hd, -⟩ := h.exists_descriptor he hedge
    exact ⟨edge, d, hedge, hsource, hd⟩
  case target =>
    intro e edge hedge
    have htarget := h.target e edge hedge
    refine ⟨htarget, ?_⟩
    rcases h.place hunexpanded hedge with ⟨hsource, -⟩ | he
    · rw [hsource]
      exact htarget
    · obtain ⟨d, hd, hmem⟩ := h.exists_descriptor he hedge
      exact Builder.target_ne_of_mem_outgoingOf
        (congrArg Coordinates.id (htells edge.source d hd)) hmem
  case synthetic =>
    intro e edge hedge hsynthetic
    have he := h.mem_outgoing_of_synthetic hdeclared hunexpanded hedge hsynthetic
    obtain ⟨d, hd, hmem⟩ := h.exists_descriptor he hedge
    rw [hsynthetic] at hmem
    obtain ⟨platform, hjoins, hdependency⟩ := Builder.synthetic_mem_outgoingOf_iff.1 hmem
    exact ⟨d, platform, hd, htells edge.source d hd, hjoins, hdependency⟩
  case platforms =>
    exact fun c hc d hd platform hjoins =>
      h.existsUnique_synthetic hdeclared hunexpanded hc hd hjoins
  case answered =>
    intro q v hv
    obtain ⟨f, hf⟩ := h.answered q v (answer?_eq_some_iff.2 hv)
    obtain ⟨n, hn, -⟩ := finding?_eq_some_iff.1 hf
    exact ⟨n, hn⟩

end Arena

end CandidateGraph

end Lockstep
