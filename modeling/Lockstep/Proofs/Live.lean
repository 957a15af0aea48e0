import Lockstep.Proofs.Walk

/-!
# The edges of a live graph

`incoming` lists, for each module, the edges of the root and of live versions
that lead to it and are not excluded; `excluded` lists the others. A version is
live only if such an edge leads to it (`exists_incoming_of_mem_nodes`).
-/

namespace Lockstep

namespace Live

variable {g : CandidateGraph} {guide : Guide} {live : Live}

/-! ## Sorting edges by target -/

/-- The edges of a list that lead to a module and are not excluded. -/
def into (t : ModuleId) (all : List (EdgeId × ModuleId × Bool)) : List EdgeId :=
  all.filterMap fun (e, target, out) => if out = false ∧ target = t then some e else none

theorem get?_addIncoming (m : SortedMap ModuleId (List EdgeId)) (target t : ModuleId)
    (e : EdgeId) : (addIncoming m target e).get? t =
      if t = target then some ((m.get? target).getD [] ++ [e]) else m.get? t := by
  unfold addIncoming
  rw [SortedMap.get?_alter]

theorem into_cons_excluded (t : ModuleId) (e : EdgeId) (target : ModuleId)
    (rest : List (EdgeId × ModuleId × Bool)) :
    into t ((e, target, true) :: rest) = into t rest := by
  unfold into
  rw [List.filterMap_cons_none]
  rfl

theorem into_cons_self (t : ModuleId) (e : EdgeId) (rest : List (EdgeId × ModuleId × Bool)) :
    into t ((e, t, false) :: rest) = e :: into t rest := by
  unfold into
  rw [List.filterMap_cons_some]
  exact if_pos ⟨rfl, rfl⟩

theorem into_cons_of_ne {t target : ModuleId} (h : target ≠ t) (e : EdgeId)
    (rest : List (EdgeId × ModuleId × Bool)) :
    into t ((e, target, false) :: rest) = into t rest := by
  unfold into
  rw [List.filterMap_cons_none]
  exact if_neg fun hc => h hc.2

theorem get?_foldl_addIncoming (all : List (EdgeId × ModuleId × Bool))
    (m : SortedMap ModuleId (List EdgeId)) (t : ModuleId) :
    (all.foldl (fun m (e, target, out) => if out then m else addIncoming m target e) m).get? t =
      if into t all = [] then m.get? t else some ((m.get? t).getD [] ++ into t all) := by
  induction all generalizing m with
  | nil => rfl
  | cons x rest ih =>
      obtain ⟨e, target, out⟩ := x
      rw [List.foldl_cons, ih]
      cases out with
      | true =>
          rw [into_cons_excluded]
          rfl
      | false =>
          change (if into t rest = [] then (addIncoming m target e).get? t else
            some (((addIncoming m target e).get? t).getD [] ++ into t rest)) = _
          by_cases ht : target = t
          · subst ht
            rw [into_cons_self, if_neg (List.cons_ne_nil _ _), get?_addIncoming, if_pos rfl,
              Option.getD_some, List.append_assoc, List.singleton_append]
            split
            · next hnil => rw [hnil]
            · rfl
          · have ht' : ¬t = target := fun h => ht h.symm
            rw [into_cons_of_ne ht, get?_addIncoming, if_neg ht']

/-! ## Membership -/

/-- All edges of the root and of the live versions, with their targets and whether they are
excluded. -/
def allEdges (g : CandidateGraph) (live : Live) : List (EdgeId × ModuleId × Bool) :=
  rootEdgesOf g ++ live.nodes.toList.flatMap (edgesOf g live.exclusions)

theorem mem_filterMap_edge {es : List EdgeId} {out? : Edge → Bool} {e : EdgeId} {t : ModuleId}
    {out : Bool} :
    (e, t, out) ∈ es.filterMap (fun e => (g.edge? e).map fun edge => (e, edge.target, out? edge)) ↔
      ∃ edge, e ∈ es ∧ g.edge? e = some edge ∧ t = edge.target ∧ out = out? edge := by
  rw [List.mem_filterMap]
  constructor
  · rintro ⟨e', he', h⟩
    obtain ⟨edge, hedge, heq⟩ := Option.map_eq_some_iff.1 h
    obtain ⟨rfl, hpair⟩ := Prod.mk.inj heq
    obtain ⟨rfl, rfl⟩ := Prod.mk.inj hpair
    exact ⟨edge, he', hedge, rfl, rfl⟩
  · rintro ⟨edge, he, hedge, rfl, rfl⟩
    exact ⟨e, he, by rw [hedge]; rfl⟩

theorem mem_rootEdgesOf {e : EdgeId} {t : ModuleId} {out : Bool} :
    (e, t, out) ∈ rootEdgesOf g ↔
      ∃ edge, e ∈ g.rootEdges ∧ g.edge? e = some edge ∧ t = edge.target ∧ out = false :=
  mem_filterMap_edge

theorem mem_edgesOf {exclusions : SortedMap ModuleId Exclusions} {c : Coordinates} {e : EdgeId}
    {t : ModuleId} {out : Bool} : (e, t, out) ∈ edgesOf g exclusions c ↔
      ∃ edge, e ∈ g.outgoing c ∧ g.edge? e = some edge ∧ t = edge.target ∧
        out = (exclusionsOf exclusions c).exclude edge.target :=
  mem_filterMap_edge

theorem mem_allEdges {e : EdgeId} {t : ModuleId} {out : Bool} :
    (e, t, out) ∈ allEdges g live ↔ ∃ edge, g.edge? e = some edge ∧ t = edge.target ∧
      (e ∈ g.rootEdges ∧ out = false ∨ ∃ c ∈ live.nodes, e ∈ g.outgoing c ∧
        out = (exclusionsOf live.exclusions c).exclude edge.target) := by
  unfold allEdges
  rw [List.mem_append, List.mem_flatMap, mem_rootEdgesOf]
  constructor
  · rintro (⟨edge, he, hedge, ht, hout⟩ | ⟨c, hc, hmem⟩)
    · exact ⟨edge, hedge, ht, Or.inl ⟨he, hout⟩⟩
    · obtain ⟨edge, he, hedge, ht, hout⟩ := mem_edgesOf.1 hmem
      exact ⟨edge, hedge, ht, Or.inr ⟨c, hc, he, hout⟩⟩
  · rintro ⟨edge, hedge, ht, ⟨he, hout⟩ | ⟨c, hc, he, hout⟩⟩
    · exact Or.inl ⟨edge, he, hedge, ht, hout⟩
    · exact Or.inr ⟨c, hc, mem_edgesOf.2 ⟨edge, he, hedge, ht, hout⟩⟩

/-- An edge of the root, or of a live version whose module's exclusions let it through. -/
def Follows (g : CandidateGraph) (live : Live) (e : EdgeId) (edge : Edge) : Prop :=
  e ∈ g.rootEdges ∨ ∃ c ∈ live.nodes, e ∈ g.outgoing c ∧
    (exclusionsOf live.exclusions c).exclude edge.target = false

theorem mem_into_allEdges {e : EdgeId} {t : ModuleId} :
    e ∈ into t (allEdges g live) ↔
      ∃ edge, g.edge? e = some edge ∧ edge.target = t ∧ Follows g live e edge := by
  unfold into
  rw [List.mem_filterMap]
  constructor
  · rintro ⟨⟨e', t', out⟩, hmem, h⟩
    dsimp only at h
    split at h
    · next hcond =>
      obtain rfl := Option.some.inj h
      obtain ⟨rfl, rfl⟩ := hcond
      obtain ⟨edge, hedge, rfl, hfrom⟩ := mem_allEdges.1 hmem
      refine ⟨edge, hedge, rfl, ?_⟩
      rcases hfrom with ⟨he, -⟩ | ⟨c, hc, he, hout⟩
      · exact Or.inl he
      · exact Or.inr ⟨c, hc, he, hout.symm⟩
    · cases h
  · rintro ⟨edge, hedge, rfl, hfrom⟩
    refine ⟨(e, edge.target, false), mem_allEdges.2 ⟨edge, hedge, rfl, ?_⟩, by simp⟩
    rcases hfrom with he | ⟨c, hc, he, hout⟩
    · exact Or.inl ⟨he, rfl⟩
    · exact Or.inr ⟨c, hc, he, hout.symm⟩

theorem get?_incoming (h : walk g guide = some live) (t : ModuleId) :
    live.incoming.get? t =
      if into t (allEdges g live) = [] then none else some (into t (allEdges g live)) := by
  obtain ⟨w, -, rfl⟩ := walk_eq_some h
  refine (get?_foldl_addIncoming (allEdges g (ofWalk g w)) ∅ t).trans ?_
  rw [SortedMap.get?_empty, Option.getD_none, List.nil_append]

theorem mem_of_get?_incoming (h : walk g guide = some live) {t : ModuleId} {es : List EdgeId}
    (hes : live.incoming.get? t = some es) {e : EdgeId} : e ∈ es ↔
      ∃ edge, g.edge? e = some edge ∧ edge.target = t ∧ Follows g live e edge := by
  rw [get?_incoming h] at hes
  split at hes
  · cases hes
  · obtain rfl := Option.some.inj hes
    exact mem_into_allEdges

theorem incoming_ne_nil (h : walk g guide = some live) {t : ModuleId} {es : List EdgeId}
    (hes : live.incoming.get? t = some es) : es ≠ [] := by
  rw [get?_incoming h] at hes
  split at hes
  · cases hes
  · next hne =>
    obtain rfl := Option.some.inj hes
    exact hne

/-- Some edge that is followed leads to a module with incoming edges. -/
theorem exists_mem_incoming (h : walk g guide = some live) {t : ModuleId} {es : List EdgeId}
    (hes : live.incoming.get? t = some es) : ∃ e ∈ es, ∃ edge, g.edge? e = some edge ∧
      edge.target = t ∧ Follows g live e edge := by
  obtain ⟨e, he⟩ := List.exists_mem_of_ne_nil es (incoming_ne_nil h hes)
  exact ⟨e, he, (mem_of_get?_incoming h hes).1 he⟩

theorem exists_get?_incoming (h : walk g guide = some live) {e : EdgeId} {edge : Edge}
    (hedge : g.edge? e = some edge) (hfollows : Follows g live e edge) :
    ∃ es, live.incoming.get? edge.target = some es ∧ e ∈ es := by
  have hmem : e ∈ into edge.target (allEdges g live) :=
    mem_into_allEdges.2 ⟨edge, hedge, rfl, hfollows⟩
  refine ⟨into edge.target (allEdges g live), ?_, hmem⟩
  rw [get?_incoming h, if_neg (List.ne_nil_of_mem hmem)]

theorem mem_excluded (h : walk g guide = some live) {e : EdgeId} : e ∈ live.excluded ↔
    ∃ edge, g.edge? e = some edge ∧ ∃ c ∈ live.nodes, e ∈ g.outgoing c ∧
      (exclusionsOf live.exclusions c).exclude edge.target = true := by
  obtain ⟨w, -, rfl⟩ := walk_eq_some h
  change e ∈ (allEdges g (ofWalk g w)).filterMap _ ↔ _
  rw [List.mem_filterMap]
  constructor
  · rintro ⟨⟨e', t, out⟩, hmem, heq⟩
    obtain ⟨edge, hedge, rfl, hfrom⟩ := mem_allEdges.1 hmem
    cases out with
    | false => cases heq
    | true =>
        obtain rfl := Option.some.inj heq
        rcases hfrom with ⟨-, hout⟩ | ⟨c, hc, he, hout⟩
        · cases hout
        · exact ⟨edge, hedge, c, hc, he, hout.symm⟩
  · rintro ⟨edge, hedge, c, hc, he, hout⟩
    exact ⟨(e, edge.target, true),
      mem_allEdges.2 ⟨edge, hedge, rfl, Or.inr ⟨c, hc, he, hout.symm⟩⟩, rfl⟩

/-! ## What is live is reached by an edge -/

theorem exclusionsOf_eq {exclusions : SortedMap ModuleId Exclusions} {c : Coordinates}
    {set : Exclusions} (h : exclusions.get? c.id = some set) : exclusionsOf exclusions c = set := by
  unfold exclusionsOf
  rw [h]
  rfl

/-- The target of an edge that is followed has arrived. -/
theorem Follows.arrives (h : walk g guide = some live) {e : EdgeId} {edge : Edge}
    (hedge : g.edge? e = some edge) (hfollows : Follows g live e edge) :
    ∃ inherited, live.region.Arrives edge.target (edge.version? guide) inherited := by
  have hclosed := closed_of_walk h
  rcases hfollows with he | ⟨c, hc, he, hex⟩
  · exact ⟨_, hclosed.root e he edge hedge⟩
  · obtain ⟨set, hset⟩ := reached_of_walk h hc
    rw [exclusionsOf_eq hset] at hex
    exact ⟨_, hclosed.onward c hc set hset e he edge hedge hex⟩

/-- What holds of the ends of all edges that are followed holds of all that is live. -/
theorem nodes_induction (h : walk g guide = some live) {P : Coordinates → Prop}
    (hP : ∀ e edge, g.edge? e = some edge →
      (e ∈ g.rootEdges ∨ ∃ c ∈ live.nodes, P c ∧ e ∈ g.outgoing c ∧
        (exclusionsOf live.exclusions c).exclude edge.target = false) →
      ∀ v, edge.version? guide = some v → P (edge.target.atVersion v)) :
    ∀ c ∈ live.nodes, P c := by
  have hclosed := closed_of_walk h
  let R : Region := ⟨fun c => c ∈ live.nodes ∧ P c, live.exclusions.get?⟩
  have hR : R.Closed g guide := by
    constructor
    · intro e he edge hedge
      obtain ⟨set, hset, hsub, hnode⟩ := hclosed.root e he edge hedge
      exact ⟨set, hset, hsub, fun v hv => ⟨hnode v hv, hP e edge hedge (Or.inl he) v hv⟩⟩
    · intro c hc set hset e he edge hedge hex
      obtain ⟨set', hset', hsub, hnode⟩ := hclosed.onward c hc.1 set hset e he edge hedge hex
      have hout : (exclusionsOf live.exclusions c).exclude edge.target = false := by
        rw [exclusionsOf_eq hset]
        exact hex
      exact ⟨set', hset', hsub, fun v hv =>
        ⟨hnode v hv, hP e edge hedge (Or.inr ⟨c, hc.1, hc.2, he, hout⟩) v hv⟩⟩
  exact fun c hc => ((le_of_walk h hR).nodes c hc).2

theorem exists_incoming_of_mem_nodes (h : walk g guide = some live) {c : Coordinates}
    (hc : c ∈ live.nodes) : ∃ e edge, g.edge? e = some edge ∧ edge.target = c.id ∧
      edge.version? guide = some c.version ∧ Follows g live e edge := by
  refine nodes_induction h (P := fun c => ∃ e edge, g.edge? e = some edge ∧ edge.target = c.id ∧
    edge.version? guide = some c.version ∧ Follows g live e edge) ?_ c hc
  intro e edge hedge hfrom v hv
  refine ⟨e, edge, hedge, rfl, hv, ?_⟩
  rcases hfrom with he | ⟨c', hc', -, he, hex⟩
  · exact Or.inl he
  · exact Or.inr ⟨c', hc', he, hex⟩

end Live

end Lockstep
