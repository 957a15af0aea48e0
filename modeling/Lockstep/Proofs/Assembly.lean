import Lockstep.Proofs.Choosing
import Lockstep.Proofs.Store

/-!
# The graph of a resolution

The modules of a resolved graph are the selections of its resolution
(`versionOf?_ofResolution`), its reports are those on the
outcomes of edges, and every report that is not excluded links its ends
(`linked_ofResolution`).
-/

namespace Lockstep

namespace ResolvedGraph

variable {g : CandidateGraph} {res : Resolution} {platforms : List AlignedPlatform}
  {iterations : Nat}

/-- The modules that a resolution selects. -/
def modulesOf (res : Resolution) : List ResolvedModule :=
  res.selections.entries.map fun (id, s) => { id, version := s.version, reason := s.reason }

/-- The modules without any edges. -/
def bare (g : CandidateGraph) (res : Resolution) : ResolvedGraph :=
  (modulesOf res).foldl addModule { root := g.root }

/-- The reports on the outcomes of a resolution. -/
def reportsOf (g : CandidateGraph) (res : Resolution) : List EdgeReport :=
  res.edges.filterMap (report? g)

/-- Edges change neither the root nor the modules. -/
theorem ofResolution_eq (g : CandidateGraph) (res : Resolution) (platforms : List AlignedPlatform)
    (iterations : Nat) : ∃ reports links, ofResolution g res platforms iterations =
      { bare g res with reports, links, platforms, conflicts := res.conflicts, iterations } := by
  obtain ⟨reports, links, heq⟩ := foldl_addEdge_eq (reportsOf g res) (bare g res)
  refine ⟨reports, links, ?_⟩
  change { (reportsOf g res).foldl addEdge (bare g res) with
    platforms, conflicts := res.conflicts, iterations } = _
  rw [heq]

/-- The graph of a resolution grows from its modules first and then from its reports. -/
theorem ofResolution_eq_grown : ofResolution g res platforms iterations =
    { grown g.root ((modulesOf res).map .module ++ (reportsOf g res).map .edge) with
      platforms, conflicts := res.conflicts, iterations } := by
  unfold grown
  rw [List.foldl_append, List.foldl_map, List.foldl_map]
  rfl

theorem stored_ofResolution : (ofResolution g res platforms iterations).Stored := by
  have h := stored_grown g.root ((modulesOf res).map .module ++ (reportsOf g res).map .edge)
  rw [ofResolution_eq_grown]
  exact ⟨h.number, h.link⟩

/-! ## Modules -/

theorem mem_modulesOf {m : ResolvedModule} : m ∈ modulesOf res ↔
    ∃ s, res.selections.get? m.id = some s ∧ m.version = s.version ∧ m.reason = s.reason := by
  unfold modulesOf
  rw [List.mem_map]
  constructor
  · rintro ⟨⟨id, s⟩, hs, rfl⟩
    exact ⟨s, SortedMap.mem_entries_iff.1 hs, rfl, rfl⟩
  · rintro ⟨s, hs, hversion, hreason⟩
    refine ⟨(m.id, s), SortedMap.mem_entries_iff.2 hs, ?_⟩
    cases m
    simp only at hversion hreason
    rw [hversion, hreason]

theorem nodup_modulesOf (res : Resolution) : ((modulesOf res).map ResolvedModule.id).Nodup := by
  unfold modulesOf
  rw [List.map_map]
  exact res.selections.nodup_keys

theorem root_foldl_addModule (ms : List ResolvedModule) (g : ResolvedGraph) :
    (ms.foldl addModule g).root = g.root := by
  induction ms generalizing g with
  | nil => rfl
  | cons m rest ih =>
      obtain ⟨added, numbers, heq⟩ := addModule_eq g m
      rw [List.foldl_cons, ih, heq]

theorem root_ofResolution : (ofResolution g res platforms iterations).root = g.root := by
  obtain ⟨reports, links, heq⟩ := ofResolution_eq g res platforms iterations
  rw [heq]
  exact root_foldl_addModule (modulesOf res) { root := g.root }

/-- A selection has a place among the modules. -/
theorem exists_added (g : CandidateGraph) (platforms : List AlignedPlatform) (iterations : Nat)
    {id : ModuleId} {s : Selection} (hs : res.selections.get? id = some s) :
    ∃ i, (ofResolution g res platforms iterations).numbers.get? id = some (i + 1) ∧
      (ofResolution g res platforms iterations).added[i]? =
        some { id, version := s.version, reason := s.reason } := by
  have hmem : { id, version := s.version, reason := s.reason } ∈ modulesOf res :=
    mem_modulesOf.2 ⟨s, hs, rfl, rfl⟩
  obtain ⟨i, hi⟩ := List.mem_iff_getElem?.1 hmem
  obtain ⟨hnumber, hadded⟩ := get?_numbers_foldl_addModule (g := { root := g.root })
    (nodup_modulesOf res) (fun m _ => rfl) hi
  obtain ⟨reports, links, heq⟩ := ofResolution_eq g res platforms iterations
  rw [heq]
  exact ⟨_, hnumber, hadded⟩

/-- A selection has a number, which stands for it. -/
theorem exists_number (g : CandidateGraph) (platforms : List AlignedPlatform) (iterations : Nat)
    {id : ModuleId} {s : Selection} (hs : res.selections.get? id = some s) :
    ∃ n, (ofResolution g res platforms iterations).numbers.get? id = some n ∧
      (ofResolution g res platforms iterations).coordinates n = id.atVersion s.version := by
  obtain ⟨i, hi, hadded⟩ := exists_added g platforms iterations hs
  refine ⟨i + 1, hi, ?_⟩
  change (((ofResolution g res platforms iterations).added[i]?).map
    ResolvedModule.coordinates).getD _ = _
  rw [hadded]
  rfl

theorem mem_of_contains_foldl {ms : List ResolvedModule} {g : ResolvedGraph} {id : ModuleId}
    (h : (ms.foldl addModule g).contains id = true) :
    g.contains id = true ∨ id ∈ ms.map ResolvedModule.id := by
  induction ms generalizing g with
  | nil => exact Or.inl h
  | cons m rest ih =>
      rw [List.map_cons, List.mem_cons]
      rcases ih h with hadded | hrest
      · unfold contains SortedMap.contains at hadded
        rw [get?_numbers_addModule] at hadded
        split at hadded
        · next hcond => exact Or.inr (Or.inl hcond.1)
        · exact Or.inl hadded
      · exact Or.inr (Or.inr hrest)

theorem contains_ofResolution {id : ModuleId} :
    (ofResolution g res platforms iterations).contains id = true ↔
      ∃ s, res.selections.get? id = some s := by
  constructor
  · intro h
    obtain ⟨reports, links, heq⟩ := ofResolution_eq g res platforms iterations
    rw [heq] at h
    have hadded : ((modulesOf res).foldl addModule { root := g.root }).contains id = true := h
    rcases mem_of_contains_foldl hadded with hempty | hmem
    · cases hempty
    · obtain ⟨m, hm, rfl⟩ := List.mem_map.1 hmem
      obtain ⟨s, hs, -⟩ := mem_modulesOf.1 hm
      exact ⟨s, hs⟩
  · rintro ⟨s, hs⟩
    obtain ⟨n, hn, -⟩ := exists_number g platforms iterations hs
    exact SortedMap.contains_iff.2 ⟨n, hn⟩

/-- The graph has the versions that the resolution selects. -/
theorem versionOf?_ofResolution (id : ModuleId) :
    (ofResolution g res platforms iterations).versionOf? id = res.versionOf? id := by
  unfold versionOf? Resolution.versionOf?
  cases hs : res.selections.get? id with
  | some s =>
      obtain ⟨i, hi, hadded⟩ := exists_added g platforms iterations hs
      rw [hi]
      change ((ofResolution g res platforms iterations).added[i]?).bind _ = _
      rw [hadded]
      rfl
  | none =>
      cases hn : (ofResolution g res platforms iterations).numbers.get? id with
      | none => rfl
      | some n =>
          obtain ⟨s, hs'⟩ := contains_ofResolution.1 (SortedMap.contains_iff.2 ⟨n, hn⟩)
          rw [hs] at hs'
          cases hs'

/-- The graph lists the modules in the order of the selections. -/
theorem modules_ofResolution :
    (ofResolution g res platforms iterations).modules = modulesOf res := by
  have hmodule : ∀ x ∈ (ofResolution g res platforms iterations).numbers.entries,
      (ofResolution g res platforms iterations).added[x.2 - 1]? =
        (res.selections.get? x.1).map fun s => ⟨x.1, s.version, s.reason⟩ := by
    intro x hx
    have hn := SortedMap.mem_entries_iff.1 hx
    obtain ⟨s, hs⟩ := contains_ofResolution.1 (SortedMap.contains_iff.2 ⟨_, hn⟩)
    obtain ⟨i, hi, hadded⟩ := exists_added g platforms iterations hs
    rw [hn] at hi
    rw [Option.some.inj hi, Nat.add_sub_cancel, hadded, hs]
    rfl
  have hkeys : (ofResolution g res platforms iterations).numbers.keys = res.selections.keys := by
    refine SortedMap.keys_eq fun id => Bool.eq_iff_iff.2 ?_
    exact contains_ofResolution.trans SortedMap.contains_iff.symm
  calc (ofResolution g res platforms iterations).modules
      = (ofResolution g res platforms iterations).numbers.keys.filterMap fun id =>
          (res.selections.get? id).map fun s => (⟨id, s.version, s.reason⟩ : ResolvedModule) := by
        unfold modules SortedMap.values SortedMap.keys
        rw [List.filterMap_map, List.filterMap_map]
        exact List.filterMap_congr hmodule
    _ = modulesOf res := by
        rw [hkeys]
        unfold modulesOf SortedMap.keys
        rw [List.filterMap_map, ← List.filterMap_eq_map]
        refine List.filterMap_congr fun x hx => ?_
        rw [Function.comp_apply, SortedMap.mem_entries_iff.1 hx]
        rfl

/-- Graphs have modules with the same coordinates if the same versions are selected. -/
theorem coordinates_modules_eq_iff {g' : CandidateGraph} {res' : Resolution}
    {platforms' : List AlignedPlatform} {iterations' : Nat} :
    (ofResolution g' res' platforms' iterations').modules.map ResolvedModule.coordinates =
        (ofResolution g res platforms iterations).modules.map ResolvedModule.coordinates ↔
      ∀ id, res'.versionOf? id = res.versionOf? id := by
  have hcoordinates : ∀ res : Resolution, (modulesOf res).map ResolvedModule.coordinates =
      res.versions.entries.map fun x => x.1.atVersion x.2 := by
    intro res
    unfold modulesOf Resolution.versions SortedMap.mapValues
    rw [List.map_map, List.map_map]
    rfl
  have hinjective : Function.Injective fun x : ModuleId × String => x.1.atVersion x.2 := by
    intro x y heq
    exact Prod.ext (congrArg Coordinates.id heq) (congrArg Coordinates.version heq)
  rw [modules_ofResolution, modules_ofResolution, hcoordinates, hcoordinates,
    ← Resolution.versions_eq_iff, (List.map_injective_iff.2 hinjective).eq_iff]
  constructor
  · intro hentries
    refine SortedMap.ext fun id => ?_
    unfold SortedMap.get?
    rw [hentries]
  · exact fun heq => by rw [heq]

/-! ## Links -/

theorem sourceNode?_root :
    (ofResolution g res platforms iterations).sourceNode? g.root = some 0 := by
  unfold sourceNode?
  rw [root_ofResolution, if_pos rfl]

theorem sourceNode?_of_ne {c : Coordinates} (hc : c ≠ g.root) :
    (ofResolution g res platforms iterations).sourceNode? c =
      (ofResolution g res platforms iterations).numbers.get? c.id := by
  unfold sourceNode?
  rw [root_ofResolution, if_neg hc]

theorem report?_eq_some {o : EdgeOutcome} {edge : Edge} (hedge : g.edge? o.edge = some edge)
    {r : EdgeReport} (hr : report? g o = some r) :
    r.status = o.status ∧ r.source = edge.source ∧ r.target = edge.target ∧
      r.selected = o.selected := by
  unfold report? at hr
  rw [hedge] at hr
  obtain rfl := Option.some.inj hr
  exact ⟨rfl, rfl, rfl, rfl⟩

/-- An edge that is not excluded links its ends. -/
theorem linked_ofResolution {o : EdgeOutcome} (ho : o ∈ res.edges) (hstatus : o.status ≠ .excluded)
    {edge : Edge} (hedge : g.edge? o.edge = some edge) {a b : Nat}
    (ha : (ofResolution g res platforms iterations).sourceNode? edge.source = some a)
    (hb : (ofResolution g res platforms iterations).numbers.get? edge.target = some b) :
    (ofResolution g res platforms iterations).linked a b = true := by
  obtain ⟨r, hr⟩ : ∃ r, report? g o = some r := by
    unfold report?
    rw [hedge]
    exact ⟨_, rfl⟩
  obtain ⟨hrstatus, hrsource, hrtarget, -⟩ := report?_eq_some hedge hr
  have hmem : r ∈ reportsOf g res := List.mem_filterMap.2 ⟨o, ho, hr⟩
  obtain ⟨reports, links, heq⟩ := ofResolution_eq g res platforms iterations
  rw [heq] at ha hb
  exact linked_addEdges (g := bare g res) hmem (hrstatus ▸ hstatus) (hrsource ▸ ha) (hrtarget ▸ hb)

/-! ## Reports -/

theorem toList_reports_foldl_addEdge (rs : List EdgeReport) (g : ResolvedGraph) :
    (rs.foldl addEdge g).reports.toList = g.reports.toList ++ rs := by
  induction rs generalizing g with
  | nil => exact (List.append_nil _).symm
  | cons r rest ih =>
      rw [List.foldl_cons, ih]
      change (g.reports.push r).toList ++ rest = _
      rw [Array.toList_push, List.append_assoc]
      rfl

theorem reports_foldl_addModule (ms : List ResolvedModule) (g : ResolvedGraph) :
    (ms.foldl addModule g).reports = g.reports := by
  induction ms generalizing g with
  | nil => rfl
  | cons m rest ih =>
      obtain ⟨added, numbers, heq⟩ := addModule_eq g m
      rw [List.foldl_cons, ih, heq]

/-- The reports of the graph are those on the outcomes. -/
theorem toList_reports_ofResolution :
    (ofResolution g res platforms iterations).reports.toList = reportsOf g res := by
  change ((reportsOf g res).foldl addEdge (bare g res)).reports.toList = _
  rw [toList_reports_foldl_addEdge]
  unfold bare
  rw [reports_foldl_addModule]
  rfl

theorem mem_reports {r : EdgeReport}
    (h : r ∈ (ofResolution g res platforms iterations).reports) : r ∈ reportsOf g res := by
  have hmem := Array.mem_toList_iff.2 h
  rw [toList_reports_ofResolution] at hmem
  exact hmem

end ResolvedGraph

end Lockstep
