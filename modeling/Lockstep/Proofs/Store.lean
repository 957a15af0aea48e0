import Lockstep.Proofs.Sorted
import Lockstep.Resolved.Path

/-!
# The store of a resolved graph

Modules get consecutive numbers from one on, and a link always stands for a
report that is not excluded and leads between two known nodes (`Stored`).
Adding a module or an edge keeps this (`stored_grown`), and a reported edge whose
ends are known is linked afterwards (`linked_addEdges`).
-/

namespace Lockstep

namespace ResolvedGraph

variable {g : ResolvedGraph}

/-- Numbers and links stand for what has been added. -/
structure Stored (g : ResolvedGraph) : Prop where
  number : ∀ id n, g.numbers.get? id = some n →
    ∃ i m, n = i + 1 ∧ g.added[i]? = some m ∧ m.id = id
  link : ∀ l ∈ g.links, ∃ r, g.reports[l.report]? = some r ∧ r.status ≠ .excluded ∧
    g.sourceNode? r.source = some l.source ∧ g.numbers.get? r.target = some l.target

namespace Stored

variable (h : g.Stored)

include h

theorem number_le {id : ModuleId} {n : Nat} (hn : g.numbers.get? id = some n) :
    0 < n ∧ n ≤ g.size := by
  obtain ⟨i, m, rfl, hm, -⟩ := h.number id n hn
  obtain ⟨hlt, -⟩ := Array.getElem?_eq_some_iff.1 hm
  exact ⟨Nat.succ_pos i, hlt⟩

/-- A module is listed if it has been added and the number of its identity is its own. -/
theorem mem_modules {m : ResolvedModule} :
    m ∈ g.modules ↔ ∃ i, g.numbers.get? m.id = some (i + 1) ∧ g.added[i]? = some m := by
  unfold modules
  rw [List.mem_filterMap]
  constructor
  · rintro ⟨n, hn, hm⟩
    obtain ⟨id, hid⟩ := SortedMap.mem_values_iff.1 hn
    obtain ⟨i, m', rfl, hm', rfl⟩ := h.number id n hid
    obtain rfl := Option.some.inj (hm'.symm.trans hm)
    exact ⟨i, hid, hm'⟩
  · rintro ⟨i, hi, hm⟩
    exact ⟨i + 1, SortedMap.mem_values_iff.2 ⟨m.id, hi⟩, hm⟩

/-- Every identity with a number is that of a module listed. -/
theorem exists_mem_modules {id : ModuleId} {n : Nat} (hn : g.numbers.get? id = some n) :
    ∃ m ∈ g.modules, m.id = id ∧ g.coordinates n = m.coordinates := by
  obtain ⟨i, m, rfl, hm, rfl⟩ := h.number id n hn
  refine ⟨m, h.mem_modules.2 ⟨i, hn, hm⟩, rfl, ?_⟩
  show ((g.added[i]?).map ResolvedModule.coordinates).getD g.root = m.coordinates
  rw [hm]
  rfl

/-- No two modules listed have one identity. -/
theorem eq_of_mem_modules {m m' : ResolvedModule} (hm : m ∈ g.modules) (hm' : m' ∈ g.modules)
    (heq : m.id = m'.id) : m = m' := by
  obtain ⟨i, hi, hadded⟩ := h.mem_modules.1 hm
  obtain ⟨i', hi', hadded'⟩ := h.mem_modules.1 hm'
  rw [heq, hi'] at hi
  obtain rfl := Nat.succ.inj (Option.some.inj hi)
  exact Option.some.inj (hadded.symm.trans hadded')

end Stored

theorem stored_new (root : Coordinates) : ({ root } : ResolvedGraph).Stored := by
  constructor
  · intro id n hn
    cases hn
  · intro l hl
    cases hl

/-! ## Adding modules -/

/-- A module of a new identity gets the next number. -/
theorem addModule_of_new {m : ResolvedModule} (h : g.contains m.id = false) :
    g.addModule m = { g with
      added := g.added.push m, numbers := g.numbers.insert m.id (g.added.size + 1) } := by
  unfold addModule
  rw [if_neg (by simp [h])]

theorem get?_numbers_addModule (g : ResolvedGraph) (m : ResolvedModule) (id : ModuleId) :
    (g.addModule m).numbers.get? id =
      if id = m.id ∧ g.contains m.id = false then some (g.size + 1) else g.numbers.get? id := by
  unfold addModule
  by_cases hc : g.contains m.id = true
  · rw [if_pos hc, if_neg (by simp [hc])]
  · rw [if_neg hc]
    dsimp only
    rw [SortedMap.get?_insert]
    by_cases hid : id = m.id
    · rw [if_pos hid, if_pos ⟨hid, by simpa using hc⟩]
      rfl
    · rw [if_neg hid, if_neg fun hcond => hid hcond.1]

/-- A module keeps its number. -/
theorem get?_numbers_addModule_of_some {m : ResolvedModule} {id : ModuleId} {n : Nat}
    (hn : g.numbers.get? id = some n) : (g.addModule m).numbers.get? id = some n := by
  rw [get?_numbers_addModule, if_neg, hn]
  rintro ⟨rfl, hcontains⟩
  unfold contains SortedMap.contains at hcontains
  rw [hn] at hcontains
  cases hcontains

theorem getElem?_added_addModule {m m' : ResolvedModule} {i : Nat}
    (hm : g.added[i]? = some m') : (g.addModule m).added[i]? = some m' := by
  unfold addModule
  split
  · exact hm
  · obtain ⟨hlt, -⟩ := Array.getElem?_eq_some_iff.1 hm
    dsimp only
    rw [Array.getElem?_push_lt hlt, ← hm, Array.getElem?_eq_getElem hlt]

theorem addModule_eq (g : ResolvedGraph) (m : ResolvedModule) :
    ∃ added numbers, g.addModule m = { g with added, numbers } := by
  unfold addModule
  split
  · exact ⟨g.added, g.numbers, rfl⟩
  · exact ⟨_, _, rfl⟩

theorem stored_addModule (h : g.Stored) (m : ResolvedModule) : (g.addModule m).Stored := by
  obtain ⟨added, numbers, heq⟩ := addModule_eq g m
  have hlinks : (g.addModule m).links = g.links := by rw [heq]
  have hreports : (g.addModule m).reports = g.reports := by rw [heq]
  have hroot : (g.addModule m).root = g.root := by rw [heq]
  constructor
  · intro id n hn
    rw [get?_numbers_addModule] at hn
    split at hn
    · next hcond =>
      obtain rfl := Option.some.inj hn
      refine ⟨g.size, m, rfl, ?_, hcond.1.symm⟩
      rw [addModule_of_new hcond.2]
      exact Array.getElem?_push_size
    · obtain ⟨i, m', rfl, hm', hid⟩ := h.number id n hn
      exact ⟨i, m', rfl, getElem?_added_addModule hm', hid⟩
  · intro l hl
    rw [hlinks] at hl
    obtain ⟨r, hr, hstatus, hsource, htarget⟩ := h.link l hl
    refine ⟨r, by rw [hreports]; exact hr, hstatus, ?_, get?_numbers_addModule_of_some htarget⟩
    unfold sourceNode? at hsource ⊢
    rw [hroot]
    split at hsource
    · next hc => rw [if_pos hc]; exact hsource
    · next hc => rw [if_neg hc]; exact get?_numbers_addModule_of_some hsource

theorem get?_numbers_foldl_addModule_of_some (ms : List ResolvedModule) {id : ModuleId} {n : Nat}
    (hn : g.numbers.get? id = some n) : (ms.foldl addModule g).numbers.get? id = some n := by
  induction ms generalizing g with
  | nil => exact hn
  | cons m rest ih => exact ih (get?_numbers_addModule_of_some hn)

theorem getElem?_added_foldl_addModule (ms : List ResolvedModule) {i : Nat} {m : ResolvedModule}
    (hm : g.added[i]? = some m) : (ms.foldl addModule g).added[i]? = some m := by
  induction ms generalizing g with
  | nil => exact hm
  | cons m' rest ih => exact ih (getElem?_added_addModule hm)

/-- Modules of different identities get the numbers of their places. -/
theorem get?_numbers_foldl_addModule {ms : List ResolvedModule}
    (hnodup : (ms.map ResolvedModule.id).Nodup)
    (hnew : ∀ m ∈ ms, g.contains m.id = false) {i : Nat} {m : ResolvedModule}
    (hm : ms[i]? = some m) :
    (ms.foldl addModule g).numbers.get? m.id = some (g.size + i + 1) ∧
      (ms.foldl addModule g).added[g.size + i]? = some m := by
  induction ms generalizing g i with
  | nil => simp at hm
  | cons m' rest ih =>
      obtain ⟨hm', hrest⟩ := List.nodup_cons.1 hnodup
      have hfresh := hnew m' List.mem_cons_self
      have hadd := addModule_of_new hfresh
      have hsize : (g.addModule m').size = g.size + 1 := by
        rw [hadd]
        exact Array.size_push _
      rw [List.foldl_cons]
      cases i with
      | zero =>
          obtain rfl := Option.some.inj hm
          refine ⟨get?_numbers_foldl_addModule_of_some rest ?_,
            getElem?_added_foldl_addModule rest ?_⟩
          · rw [get?_numbers_addModule, if_pos ⟨rfl, hfresh⟩, Nat.add_zero]
          · rw [hadd]
            exact Array.getElem?_push_size
      | succ i =>
          have hnew' : ∀ m'' ∈ rest, (g.addModule m').contains m''.id = false := by
            intro m'' hm''
            unfold contains SortedMap.contains
            rw [get?_numbers_addModule, if_neg]
            · exact hnew m'' (List.mem_cons_of_mem _ hm'')
            · rintro ⟨heq, -⟩
              exact hm' (List.mem_map.2 ⟨m'', hm'', heq⟩)
          have hnext := ih (g := g.addModule m') hrest hnew' hm
          have hplace : (g.addModule m').size + i = g.size + (i + 1) := by omega
          rw [hplace] at hnext
          exact hnext

/-! ## Adding edges -/

theorem stored_addEdge (h : g.Stored) (r : EdgeReport) : (g.addEdge r).Stored := by
  refine ⟨h.number, fun l hl => ?_⟩
  rcases List.mem_append.1 hl with hl | hl
  · obtain ⟨r', hr', hrest⟩ := h.link l hl
    refine ⟨r', ?_, hrest⟩
    obtain ⟨hlt, -⟩ := Array.getElem?_eq_some_iff.1 hr'
    exact (Array.getElem?_push_lt hlt).trans ((Array.getElem?_eq_getElem hlt).symm.trans hr')
  · have hnew := Option.mem_toList.1 hl
    unfold newLink? at hnew
    split at hnew
    · cases hnew
    · next hstatus =>
      obtain ⟨source, hsource, hnew⟩ := Option.bind_eq_some_iff.1 hnew
      obtain ⟨target, htarget, hnew⟩ := Option.bind_eq_some_iff.1 hnew
      split at hnew
      · cases hnew
      · obtain rfl := Option.some.inj hnew
        exact ⟨r, Array.getElem?_push_size, hstatus, hsource, htarget⟩

theorem linked_addEdge {source target : Nat} (hl : g.linked source target = true)
    (r : EdgeReport) : (g.addEdge r).linked source target = true := by
  unfold linked addEdge at *
  rw [List.any_append, hl, Bool.true_or]

/-- A report between known nodes that is not excluded links them. -/
theorem linked_addEdge_self {r : EdgeReport} (hstatus : r.status ≠ .excluded) {source target : Nat}
    (hsource : g.sourceNode? r.source = some source)
    (htarget : g.numbers.get? r.target = some target) :
    (g.addEdge r).linked source target = true := by
  by_cases hl : g.linked source target = true
  · exact linked_addEdge hl r
  · have hnew : g.newLink? r = some { source, target, report := g.reports.size } := by
      unfold newLink?
      rw [if_neg hstatus, hsource, htarget]
      exact if_neg hl
    unfold addEdge linked
    rw [hnew, List.any_append, Bool.or_eq_true]
    right
    simp

theorem foldl_addEdge_eq (rs : List EdgeReport) (g : ResolvedGraph) :
    ∃ reports links, rs.foldl addEdge g = { g with reports, links } := by
  induction rs generalizing g with
  | nil => exact ⟨g.reports, g.links, rfl⟩
  | cons r rest ih =>
      obtain ⟨reports, links, heq⟩ := ih (g.addEdge r)
      exact ⟨reports, links, heq⟩

theorem linked_addEdges {rs : List EdgeReport} {r : EdgeReport} (hr : r ∈ rs)
    (hstatus : r.status ≠ .excluded) {source target : Nat}
    (hsource : g.sourceNode? r.source = some source)
    (htarget : g.numbers.get? r.target = some target) :
    (rs.foldl addEdge g).linked source target = true := by
  have hkeep : ∀ (rs : List EdgeReport) (g : ResolvedGraph), g.linked source target = true →
      (rs.foldl addEdge g).linked source target = true := by
    intro rs
    induction rs with
    | nil => exact fun g hl => hl
    | cons r rest ih => exact fun g hl => ih _ (linked_addEdge hl r)
  induction rs generalizing g with
  | nil => cases hr
  | cons r' rest ih =>
      rw [List.foldl_cons]
      rcases List.mem_cons.1 hr with rfl | hr
      · exact hkeep rest _ (linked_addEdge_self hstatus hsource htarget)
      · exact ih (g := g.addEdge r') hr hsource htarget

/-! ## Adding both -/

/-- Something to add to a graph. -/
inductive Addition where
  | module (m : ResolvedModule)
  | edge (r : EdgeReport)

def add (g : ResolvedGraph) : Addition → ResolvedGraph
  | .module m => g.addModule m
  | .edge r => g.addEdge r

/-- A graph of this root after these additions. -/
def grown (root : Coordinates) (additions : List Addition) : ResolvedGraph :=
  additions.foldl add { root }

theorem stored_add (h : g.Stored) (a : Addition) : (g.add a).Stored := by
  cases a with
  | module m => exact stored_addModule h m
  | edge r => exact stored_addEdge h r

theorem stored_grown (root : Coordinates) (additions : List Addition) :
    (grown root additions).Stored := by
  have hall : ∀ g : ResolvedGraph, g.Stored → (additions.foldl add g).Stored := by
    induction additions with
    | nil => exact fun _ h => h
    | cons a rest ih => exact fun g h => ih (g.add a) (stored_add h a)
  exact hall _ (stored_new root)

end ResolvedGraph

namespace Sample

def member (name : String) : ResolvedModule :=
  ⟨⟨"org", name⟩, "1", .default⟩

def need (source target : String) : EdgeReport where
  source := (member source).coordinates
  target := (member target).id
  requested := "1"
  selected := some "1"
  status := .honored
  reason := .default

end Sample

end Lockstep
