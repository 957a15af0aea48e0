import Lockstep.Proofs.Arena
import Lockstep.Proofs.Settled

/-!
# The outcomes of edges

In the graph of a builder an edge belongs to the root or to one version, so the
edges of the root and of the live versions are met once each
(`Live.nodup_allEdges`). The outcomes of a resolution are those of exactly these
edges, in the order of their numbers (`Resolution.mem_outcomes`,
`Resolution.ascending_outcomes`).
-/

namespace Lockstep

variable {rules : PlatformRules} {dependencies : List (Dependency × Bool)} {g : CandidateGraph}
  {expanded : SortedSet Coordinates} {guide : Guide} {live : Live} {order : VersionOrder}
  {round : Round}

/-! ## Edges are met once -/

namespace Live

/-- The root is not live: no edge leads to it. -/
theorem id_ne_root (harena : g.Arena rules dependencies expanded)
    (hwalk : walk g guide = some live) {c : Coordinates} (hc : c ∈ live.nodes) :
    c.id ≠ g.root.id := by
  obtain ⟨e, edge, hedge, htarget, -, -⟩ := exists_incoming_of_mem_nodes hwalk hc
  rw [← htarget]
  exact harena.target e edge hedge

theorem map_fst_edgesOf_sublist (g : CandidateGraph) (exclusions : SortedMap ModuleId Exclusions)
    (c : Coordinates) : ((edgesOf g exclusions c).map Prod.fst).Sublist (g.outgoing c) := by
  unfold edgesOf
  induction g.outgoing c with
  | nil => exact List.Sublist.slnil
  | cons e rest ih =>
      rw [List.filterMap_cons]
      cases g.edge? e with
      | none => exact ih.cons e
      | some edge => exact ih.cons_cons e

theorem map_fst_rootEdgesOf_sublist (g : CandidateGraph) :
    ((rootEdgesOf g).map Prod.fst).Sublist g.rootEdges := by
  unfold rootEdgesOf
  induction g.rootEdges with
  | nil => exact List.Sublist.slnil
  | cons e rest ih =>
      rw [List.filterMap_cons]
      cases g.edge? e with
      | none => exact ih.cons e
      | some edge => exact ih.cons_cons e

/-- The numbers of the edges of the root and of all live versions. -/
def edgeIds (g : CandidateGraph) (live : Live) : List EdgeId :=
  g.rootEdges ++ live.nodes.toList.flatMap g.outgoing

theorem mem_edgeIds {e : EdgeId} :
    e ∈ edgeIds g live ↔ e ∈ g.rootEdges ∨ ∃ c ∈ live.nodes, e ∈ g.outgoing c := by
  unfold edgeIds
  rw [List.mem_append, List.mem_flatMap]
  rfl

/-- An edge belongs to the root or to one live version. -/
theorem nodup_edgeIds (harena : g.Arena rules dependencies expanded)
    (hwalk : walk g guide = some live) : (edgeIds g live).Nodup := by
  refine List.nodup_append'.2 ⟨harena.root.nodup, List.nodup_flatMap.2 ⟨?_, ?_⟩, ?_⟩
  · exact fun c _ => harena.nodup_outgoing c
  · refine live.nodes.nodup_toList.imp ?_
    intro c c' hne e he he'
    obtain ⟨edge, hedge, hc⟩ := harena.source_of_mem_outgoing he
    obtain ⟨edge', hedge', hc'⟩ := harena.source_of_mem_outgoing he'
    rw [hedge] at hedge'
    obtain rfl := Option.some.inj hedge'
    exact hne (hc.symm.trans hc')
  · intro e he he'
    obtain ⟨c, hc, he'⟩ := List.mem_flatMap.1 he'
    obtain ⟨edge, hedge, hroot⟩ := harena.source_of_mem_rootEdges he
    obtain ⟨edge', hedge', hc'⟩ := harena.source_of_mem_outgoing he'
    rw [hedge] at hedge'
    obtain rfl := Option.some.inj hedge'
    refine id_ne_root harena hwalk hc ?_
    rw [← hc', hroot]

theorem map_fst_allEdges_sublist (g : CandidateGraph) (live : Live) :
    ((allEdges g live).map Prod.fst).Sublist (edgeIds g live) := by
  unfold allEdges edgeIds
  rw [List.map_append]
  refine (map_fst_rootEdgesOf_sublist g).append ?_
  induction live.nodes.toList with
  | nil => exact List.Sublist.slnil
  | cons c rest ih =>
      rw [List.flatMap_cons, List.flatMap_cons, List.map_append]
      exact (map_fst_edgesOf_sublist g live.exclusions c).append ih

theorem nodup_allEdges (harena : g.Arena rules dependencies expanded)
    (hwalk : walk g guide = some live) : ((allEdges g live).map Prod.fst).Nodup :=
  (nodup_edgeIds harena hwalk).sublist (map_fst_allEdges_sublist g live)

theorem into_sublist (t : ModuleId) (all : List (EdgeId × ModuleId × Bool)) :
    (into t all).Sublist (all.map Prod.fst) := by
  unfold into
  induction all with
  | nil => exact List.Sublist.slnil
  | cons x rest ih =>
      rw [List.filterMap_cons]
      split
      · exact ih.cons _
      · next e heq =>
        dsimp only at heq
        split at heq
        · obtain rfl := Option.some.inj heq
          exact ih.cons_cons _
        · cases heq

theorem excluded_sublist (hwalk : walk g guide = some live) :
    live.excluded.Sublist ((allEdges g live).map Prod.fst) := by
  obtain ⟨w, -, rfl⟩ := walk_eq_some hwalk
  change ((allEdges g (ofWalk g w)).filterMap _).Sublist _
  induction allEdges g (ofWalk g w) with
  | nil => exact List.Sublist.slnil
  | cons x rest ih =>
      obtain ⟨e, t, out⟩ := x
      cases out with
      | true => exact ih.cons_cons e
      | false => exact ih.cons e

/-- An edge is not followed and excluded at once. -/
theorem not_mem_excluded_of_follows (harena : g.Arena rules dependencies expanded)
    (hwalk : walk g guide = some live) {e : EdgeId} {edge : Edge} (hedge : g.edge? e = some edge)
    (hfollows : Follows g live e edge) : e ∉ live.excluded := by
  intro hmem
  obtain ⟨edge', hedge', c, hc, he, hex⟩ := (mem_excluded hwalk).1 hmem
  rw [hedge] at hedge'
  obtain rfl := Option.some.inj hedge'
  obtain ⟨edge', hedge', hsource⟩ := harena.source_of_mem_outgoing he
  rw [hedge] at hedge'
  obtain rfl := Option.some.inj hedge'
  rcases hfollows with hroot | ⟨c', -, he', hex'⟩
  · obtain ⟨edge', hedge', hsource'⟩ := harena.source_of_mem_rootEdges hroot
    rw [hedge] at hedge'
    obtain rfl := Option.some.inj hedge'
    refine id_ne_root harena hwalk hc ?_
    rw [← hsource, hsource']
  · obtain ⟨edge', hedge', hsource'⟩ := harena.source_of_mem_outgoing he'
    rw [hedge] at hedge'
    obtain rfl := Option.some.inj hedge'
    obtain rfl : c = c' := hsource.symm.trans hsource'
    rw [hex] at hex'
    cases hex'

/-- Nothing has been taken note of for the root. -/
theorem get?_exclusions_root (harena : g.Arena rules dependencies expanded)
    (hwalk : walk g guide = some live) : live.exclusions.get? g.root.id = none := by
  have hclosed := closed_of_walk hwalk
  let R : Region := ⟨(· ∈ live.nodes), fun id => if id = g.root.id then none
    else live.exclusions.get? id⟩
  have hread : ∀ id set, R.exclusions id = some set → live.exclusions.get? id = some set := by
    intro id set hset
    by_cases hid : id = g.root.id
    · rw [show R.exclusions id = none from if_pos hid] at hset
      cases hset
    · rwa [show R.exclusions id = live.exclusions.get? id from if_neg hid] at hset
  have harrives : ∀ {e edge inherited}, g.edge? e = some edge →
      live.region.Arrives edge.target (edge.version? guide) inherited →
      R.Arrives edge.target (edge.version? guide) inherited := by
    rintro e edge inherited hedge ⟨set, hset, hsub, hnode⟩
    exact ⟨set, (if_neg (harena.target e edge hedge)).trans hset, hsub, hnode⟩
  have hR : R.Closed g guide :=
    ⟨fun e he edge hedge => harrives hedge (hclosed.root e he edge hedge),
      fun c hc set hset e he edge hedge hex =>
        harrives hedge (hclosed.onward c hc set (hread _ _ hset) e he edge hedge hex)⟩
  cases hset : live.exclusions.get? g.root.id with
  | none => rfl
  | some set =>
      obtain ⟨shared, hshared, -⟩ := (le_of_walk hwalk hR).exclusions g.root.id set hset
      rw [show R.exclusions g.root.id = none from if_pos rfl] at hshared
      cases hshared

/-- What is in force for the source of an edge that is followed lets it through. -/
theorem exclude_eq_false_of_follows (harena : g.Arena rules dependencies expanded)
    (hwalk : walk g guide = some live) {e : EdgeId} {edge : Edge} (hedge : g.edge? e = some edge)
    (hfollows : Follows g live e edge) :
    (exclusionsOf live.exclusions edge.source).exclude edge.target = false := by
  rcases hfollows with he | ⟨c, -, he, hex⟩
  · obtain ⟨edge', hedge', hsource⟩ := harena.source_of_mem_rootEdges he
    rw [hedge] at hedge'
    obtain rfl := Option.some.inj hedge'
    rw [hsource]
    unfold exclusionsOf
    rw [get?_exclusions_root harena hwalk]
    exact Exclusions.exclude_empty _
  · obtain ⟨edge', hedge', hsource⟩ := harena.source_of_mem_outgoing he
    rw [hedge] at hedge'
    obtain rfl := Option.some.inj hedge'
    rw [hsource]
    exact hex

end Live

/-! ## Outcomes -/

namespace Resolution

/-- The outcome of an edge whose target is at a selection. -/
def takenOutcome (order : VersionOrder) (s : Selection) (e : EdgeId) (edge : Edge) : EdgeOutcome :=
  { edge := e
    status := if edge.dependency.requirement.accepts order s.version then .honored else .overridden
    selected := some s.version
    reason := s.reason }

/-- The outcome of an edge whose target is excluded. -/
def excludedOutcome (e : EdgeId) : EdgeOutcome :=
  { edge := e, status := .excluded, selected := none, reason := .byAncestorExclusion }

/-- The outcomes of the edges that are followed, by target. -/
def takenOutcomes (order : VersionOrder) (g : CandidateGraph) (live : Live) (round : Round) :
    List EdgeOutcome :=
  live.incoming.entries.flatMap fun x =>
    match round.selections.get? x.1 with
    | some s => taken order g s x.2
    | none => []

theorem outcomes_perm (order : VersionOrder) (g : CandidateGraph) (live : Live) (round : Round) :
    (outcomes order g live round).Perm
      (takenOutcomes order g live round ++ live.excluded.map excludedOutcome) := by
  unfold outcomes
  rw [sortBy_eq]
  exact List.perm_insertionSort _ _

theorem mem_taken {s : Selection} {es : List EdgeId} {o : EdgeOutcome} :
    o ∈ taken order g s es ↔ ∃ e ∈ es, ∃ edge, g.edge? e = some edge ∧
      o = takenOutcome order s e edge := by
  unfold taken
  rw [List.mem_filterMap]
  refine exists_congr fun e => and_congr_right fun _ => ?_
  rw [Option.map_eq_some_iff]
  exact exists_congr fun edge => and_congr_right fun _ => eq_comm

theorem mem_takenOutcomes (hwalk : walk g guide = some live) {o : EdgeOutcome} :
    o ∈ takenOutcomes order g live round ↔ ∃ e edge s, g.edge? e = some edge ∧
      Live.Follows g live e edge ∧ round.selections.get? edge.target = some s ∧
      o = takenOutcome order s e edge := by
  unfold takenOutcomes
  rw [List.mem_flatMap]
  constructor
  · rintro ⟨⟨t, es⟩, hmem, ho⟩
    dsimp only at ho
    cases hs : round.selections.get? t with
    | none =>
        rw [hs] at ho
        cases ho
    | some s =>
        rw [hs] at ho
        obtain ⟨e, he, edge, hedge, rfl⟩ := mem_taken.1 ho
        obtain ⟨edge', hedge', rfl, hfollows⟩ :=
          (Live.mem_of_get?_incoming hwalk (SortedMap.mem_entries_iff.1 hmem)).1 he
        rw [hedge] at hedge'
        obtain rfl := Option.some.inj hedge'
        exact ⟨e, edge, s, hedge, hfollows, hs, rfl⟩
  · rintro ⟨e, edge, s, hedge, hfollows, hs, rfl⟩
    obtain ⟨es, hes, he⟩ := Live.exists_get?_incoming hwalk hedge hfollows
    refine ⟨(edge.target, es), SortedMap.mem_entries_iff.2 hes, ?_⟩
    dsimp only
    rw [hs]
    exact mem_taken.2 ⟨e, he, edge, hedge, rfl⟩

theorem mem_outcomes (hwalk : walk g guide = some live) {o : EdgeOutcome} :
    o ∈ outcomes order g live round ↔
      (∃ e edge s, g.edge? e = some edge ∧ Live.Follows g live e edge ∧
        round.selections.get? edge.target = some s ∧ o = takenOutcome order s e edge) ∨
      ∃ e ∈ live.excluded, o = excludedOutcome e := by
  rw [(outcomes_perm order g live round).mem_iff, List.mem_append, mem_takenOutcomes hwalk,
    List.mem_map]
  exact or_congr_right (exists_congr fun e => and_congr_right fun _ => eq_comm)

theorem map_edge_taken_sublist (order : VersionOrder) (g : CandidateGraph) (s : Selection)
    (es : List EdgeId) : ((taken order g s es).map EdgeOutcome.edge).Sublist es := by
  unfold taken
  induction es with
  | nil => exact List.Sublist.slnil
  | cons e rest ih =>
      rw [List.filterMap_cons]
      cases g.edge? e with
      | none => exact ih.cons e
      | some edge => exact ih.cons_cons e

/-- The edges into one module with an outcome are among those into it. -/
theorem map_edge_takenOf_sublist (round : Round) (x : ModuleId × List EdgeId) :
    ((match round.selections.get? x.1 with
      | some s => taken order g s x.2
      | none => []).map EdgeOutcome.edge).Sublist x.2 := by
  cases round.selections.get? x.1 with
  | none => exact List.nil_sublist _
  | some s => exact map_edge_taken_sublist order g s x.2

theorem nodup_takenOutcomes (harena : g.Arena rules dependencies expanded)
    (hwalk : walk g guide = some live) :
    ((takenOutcomes order g live round).map EdgeOutcome.edge).Nodup := by
  have htarget : ∀ x ∈ live.incoming.entries, ∀ e ∈ x.2, ∃ edge, g.edge? e = some edge ∧
      edge.target = x.1 := by
    intro x hx e he
    obtain ⟨edge, hedge, ht, -⟩ :=
      (Live.mem_of_get?_incoming hwalk (SortedMap.mem_entries_iff.1 hx)).1 he
    exact ⟨edge, hedge, ht⟩
  unfold takenOutcomes
  rw [List.map_flatMap]
  refine List.nodup_flatMap.2 ⟨?_, ?_⟩
  · intro x hx
    refine List.Nodup.sublist (map_edge_takenOf_sublist round x) ?_
    have hes := SortedMap.mem_entries_iff.1 hx
    rw [Live.get?_incoming hwalk] at hes
    split at hes
    · cases hes
    · rw [← Option.some.inj hes]
      exact (Live.nodup_allEdges harena hwalk).sublist (Live.into_sublist _ _)
  · have hkeys : live.incoming.entries.Pairwise fun x y => x.1 ≠ y.1 :=
      List.pairwise_map.1 live.incoming.nodup_keys
    refine hkeys.imp_of_mem ?_
    intro x y hx hy hne e hex hey
    obtain ⟨edge, hedge, ht⟩ := htarget x hx e ((map_edge_takenOf_sublist round x).subset hex)
    obtain ⟨edge', hedge', ht'⟩ := htarget y hy e ((map_edge_takenOf_sublist round y).subset hey)
    rw [hedge] at hedge'
    obtain rfl := Option.some.inj hedge'
    exact hne (ht.symm.trans ht')

/-- Outcomes come in the order of the numbers of their edges, one for each edge. -/
theorem ascending_outcomes (harena : g.Arena rules dependencies expanded)
    (hwalk : walk g guide = some live) :
    ((outcomes order g live round).map EdgeOutcome.edge).Pairwise (· < ·) := by
  let earlier (a b : EdgeOutcome) : Prop := decide (a.edge ≤ b.edge) = true
  have htotal : Std.Total earlier := ⟨fun a b =>
    (Nat.le_total a.edge b.edge).imp decide_eq_true decide_eq_true⟩
  have htrans : IsTrans EdgeOutcome earlier := ⟨fun a b c hab hbc =>
    decide_eq_true (Nat.le_trans (of_decide_eq_true hab) (of_decide_eq_true hbc))⟩
  have hsorted : (outcomes order g live round).Pairwise earlier := by
    unfold outcomes
    rw [sortBy_eq]
    exact List.pairwise_insertionSort earlier _
  have hnodup : ((outcomes order g live round).map EdgeOutcome.edge).Nodup := by
    refine ((outcomes_perm order g live round).map EdgeOutcome.edge).nodup_iff.2 ?_
    rw [List.map_append, List.map_map]
    have hexcluded : (live.excluded.map (EdgeOutcome.edge ∘ excludedOutcome)) = live.excluded :=
      List.map_id _
    rw [hexcluded]
    refine List.nodup_append'.2 ⟨nodup_takenOutcomes harena hwalk,
      (Live.nodup_allEdges harena hwalk).sublist (Live.excluded_sublist hwalk), ?_⟩
    intro e he hexcluded
    obtain ⟨o, ho, rfl⟩ := List.mem_map.1 he
    obtain ⟨e, edge, s, hedge, hfollows, -, rfl⟩ := (mem_takenOutcomes hwalk).1 ho
    exact Live.not_mem_excluded_of_follows harena hwalk hedge hfollows hexcluded
  refine List.pairwise_map.2 ?_
  refine ((List.pairwise_map.1 hnodup).and hsorted).imp ?_
  rintro a b ⟨hne, hle⟩
  exact Nat.lt_of_le_of_ne (of_decide_eq_true hle) hne

/-! ## Edge by edge -/

/-- The outcome of one edge, by what is in force for its source and selected for its target. -/
def outcome? (order : VersionOrder) (g : CandidateGraph) (live : Live) (round : Round)
    (e : EdgeId) : Option EdgeOutcome :=
  (g.edge? e).bind fun edge =>
    if (Live.exclusionsOf live.exclusions edge.source).exclude edge.target then
      some (excludedOutcome e)
    else (round.selections.get? edge.target).map fun s => takenOutcome order s e edge

theorem edge_of_outcome? {e : EdgeId} {o : EdgeOutcome}
    (h : outcome? order g live round e = some o) : o.edge = e := by
  obtain ⟨edge, -, ho⟩ := Option.bind_eq_some_iff.1 h
  split at ho
  · rw [← Option.some.inj ho]
    rfl
  · obtain ⟨s, -, rfl⟩ := Option.map_eq_some_iff.1 ho
    rfl

theorem outcome?_eq_of_follows (harena : g.Arena rules dependencies expanded)
    (hwalk : walk g guide = some live) {e : EdgeId} {edge : Edge} (hedge : g.edge? e = some edge)
    (hfollows : Live.Follows g live e edge) : outcome? order g live round e =
      (round.selections.get? edge.target).map fun s => takenOutcome order s e edge := by
  unfold outcome?
  rw [hedge, Option.bind_some, Live.exclude_eq_false_of_follows harena hwalk hedge hfollows]
  rfl

theorem mem_outcomes_iff (harena : g.Arena rules dependencies expanded)
    (hwalk : walk g guide = some live) {o : EdgeOutcome} : o ∈ outcomes order g live round ↔
      ∃ e ∈ Live.edgeIds g live, outcome? order g live round e = some o := by
  rw [mem_outcomes hwalk]
  constructor
  · rintro (⟨e, edge, s, hedge, hfollows, hs, rfl⟩ | ⟨e, he, rfl⟩)
    · refine ⟨e, Live.mem_edgeIds.2 (hfollows.imp_right fun ⟨c, hc, he, _⟩ => ⟨c, hc, he⟩), ?_⟩
      rw [outcome?_eq_of_follows harena hwalk hedge hfollows, hs]
      rfl
    · obtain ⟨edge, hedge, c, hc, hout, hex⟩ := (Live.mem_excluded hwalk).1 he
      obtain ⟨edge', hedge', hsource⟩ := harena.source_of_mem_outgoing hout
      rw [hedge] at hedge'
      obtain rfl := Option.some.inj hedge'
      refine ⟨e, Live.mem_edgeIds.2 (Or.inr ⟨c, hc, hout⟩), ?_⟩
      unfold outcome?
      rw [hedge, Option.bind_some, hsource, if_pos hex]
  · rintro ⟨e, he, ho⟩
    have hback : ∀ {edge}, g.edge? e = some edge → Live.Follows g live e edge →
        ∃ e edge s, g.edge? e = some edge ∧ Live.Follows g live e edge ∧
          round.selections.get? edge.target = some s ∧ o = takenOutcome order s e edge := by
      intro edge hedge hfollows
      rw [outcome?_eq_of_follows harena hwalk hedge hfollows] at ho
      obtain ⟨s, hs, rfl⟩ := Option.map_eq_some_iff.1 ho
      exact ⟨e, edge, s, hedge, hfollows, hs, rfl⟩
    rcases Live.mem_edgeIds.1 he with hroot | ⟨c, hc, hout⟩
    · obtain ⟨edge, hedge, -⟩ := harena.source_of_mem_rootEdges hroot
      exact Or.inl (hback hedge (Or.inl hroot))
    · obtain ⟨edge, hedge, hsource⟩ := harena.source_of_mem_outgoing hout
      cases hex : (Live.exclusionsOf live.exclusions c).exclude edge.target with
      | false => exact Or.inl (hback hedge (Or.inr ⟨c, hc, hout, hex⟩))
      | true =>
          refine Or.inr ⟨e, (Live.mem_excluded hwalk).2 ⟨edge, hedge, c, hc, hout, hex⟩, ?_⟩
          unfold outcome? at ho
          rw [hedge, Option.bind_some, hsource, if_pos hex] at ho
          exact (Option.some.inj ho).symm

/-- The outcomes are those of the edges one by one. -/
theorem outcomes_perm_filterMap (harena : g.Arena rules dependencies expanded)
    (hwalk : walk g guide = some live) : (outcomes order g live round).Perm
      ((Live.edgeIds g live).filterMap (outcome? order g live round)) := by
  refine (List.perm_ext_iff_of_nodup ?_ ?_).2 fun o => ?_
  · refine List.Nodup.of_map EdgeOutcome.edge ?_
    exact (ascending_outcomes harena hwalk).imp fun hlt => Nat.ne_of_lt hlt
  · refine (Live.nodup_edgeIds harena hwalk).filterMap ?_
    intro e e' o ho ho'
    rw [← edge_of_outcome? ho, edge_of_outcome? ho']
  · rw [mem_outcomes_iff harena hwalk, List.mem_filterMap]

end Resolution

end Lockstep
