import Lockstep.Proofs.Store
import Mathlib.Data.List.Induction

/-!
# Resolved graphs and their histories

What a graph holds is read off the sequence of its additions, with no numbers
of nodes: the first module of every identity, every report, and for two nodes
the earliest report that connects them (`Earliest`). A report connects nodes by what
had been added before it, so one that comes before its modules never does.

`Traced` relates a graph to its history, and each addition keeps it
(`traced_add`). `Reflects` says the same of what the graph shows.
-/

namespace Lockstep

namespace ResolvedGraph

/-! ## Reading a history -/

def Addition.module? : Addition → Option ResolvedModule
  | .module m => some m
  | .edge _ => none

def Addition.report? : Addition → Option EdgeReport
  | .module _ => none
  | .edge r => some r

/-- The modules of a history, in the order of their addition. -/
def modulesIn (additions : List Addition) : List ResolvedModule :=
  additions.filterMap Addition.module?

/-- The reports of a history, in the order of their addition. -/
def reportsIn (additions : List Addition) : List EdgeReport :=
  additions.filterMap Addition.report?

/-- The module that was added first under an identity. -/
def firstModule? (additions : List Addition) (id : ModuleId) : Option ResolvedModule :=
  (modulesIn additions).find? (·.id == id)

theorem exists_find?_id {ms : List ResolvedModule} {m : ResolvedModule} (hm : m ∈ ms) :
    ∃ first, ms.find? (·.id == m.id) = some first ∧ first.id = m.id := by
  have hsome : (ms.find? (·.id == m.id)).isSome = true :=
    List.find?_isSome.2 ⟨m, hm, beq_self_eq_true _⟩
  obtain ⟨first, hfirst⟩ := Option.isSome_iff_exists.1 hsome
  exact ⟨first, hfirst, by simpa using List.find?_some hfirst⟩

/-- The node that a report leaves: a module, or the root (`none`). -/
def origin (root : Coordinates) (r : EdgeReport) : Option ModuleId :=
  if r.source = root then none else some r.source.id

/-- The root is known from the start, a module once it has been added. -/
def Known (additions : List Addition) : Option ModuleId → Prop
  | none => True
  | some id => ∃ m ∈ modulesIn additions, m.id = id

/-- A report that was added after `before` connects two nodes. -/
structure Connects (root : Coordinates) (before : List Addition) (r : EdgeReport)
    (source : Option ModuleId) (target : ModuleId) : Prop where
  status : r.status ≠ .excluded
  leaves : origin root r = source
  reaches : r.target = target
  knownSource : Known before source
  knownTarget : Known before (some target)

/-- Some report of a history connects two nodes. -/
def Connected (root : Coordinates) (additions : List Addition) (source : Option ModuleId)
    (target : ModuleId) : Prop :=
  ∃ before r after, additions = before ++ .edge r :: after ∧ Connects root before r source target

/-- Of the reports that connect two nodes, the first is the one of this number. -/
def Earliest (root : Coordinates) (additions : List Addition) (source : Option ModuleId)
    (target : ModuleId) (report : Nat) : Prop :=
  ∃ before r after, additions = before ++ .edge r :: after ∧
    (reportsIn before).length = report ∧ Connects root before r source target ∧
      ¬ Connected root before source target

/-! ## Histories that grow -/

section Concat

variable {root : Coordinates} {additions : List Addition} {a : Addition}
variable {source : Option ModuleId} {target : ModuleId} {report : Nat}

/-- A longer history splits at its last addition or within the shorter one. -/
theorem concat_eq_append_cons_iff {before after : List Addition} {b : Addition} :
    additions ++ [a] = before ++ b :: after ↔
      (∃ after', after = after' ++ [a] ∧ additions = before ++ b :: after') ∨
        (after = [] ∧ additions = before ∧ a = b) := by
  constructor
  · intro h
    rcases List.eq_nil_or_concat after with rfl | ⟨after', last, rfl⟩
    · obtain ⟨hbefore, hlast⟩ := List.append_inj' h rfl
      exact Or.inr ⟨rfl, hbefore, by simpa using hlast⟩
    · rw [List.concat_eq_append, ← List.cons_append, ← List.append_assoc] at h
      obtain ⟨hbefore, hlast⟩ := List.append_inj' h rfl
      obtain rfl : a = last := by simpa using hlast
      exact Or.inl ⟨after', by simp, hbefore⟩
  · rintro (⟨after', rfl, rfl⟩ | ⟨rfl, rfl, rfl⟩) <;> simp

/-- A report of a longer history is its last addition or one of the shorter history. -/
theorem exists_report_concat_iff {P : List Addition → EdgeReport → Prop} :
    (∃ before r after, additions ++ [a] = before ++ .edge r :: after ∧ P before r) ↔
      (∃ before r after, additions = before ++ .edge r :: after ∧ P before r) ∨
        ∃ r, a = .edge r ∧ P additions r := by
  constructor
  · rintro ⟨before, r, after, hsplit, hP⟩
    rcases concat_eq_append_cons_iff.1 hsplit with ⟨after', -, heq⟩ | ⟨-, rfl, rfl⟩
    · exact Or.inl ⟨before, r, after', heq, hP⟩
    · exact Or.inr ⟨r, rfl, hP⟩
  · rintro (⟨before, r, after, rfl, hP⟩ | ⟨r, rfl, hP⟩)
    · exact ⟨before, r, after ++ [a], by simp, hP⟩
    · exact ⟨additions, r, [], rfl, hP⟩

theorem connected_concat_iff : Connected root (additions ++ [a]) source target ↔
    Connected root additions source target ∨
      ∃ r, a = .edge r ∧ Connects root additions r source target :=
  exists_report_concat_iff

theorem earliest_concat_iff : Earliest root (additions ++ [a]) source target report ↔
    Earliest root additions source target report ∨
      ∃ r, a = .edge r ∧ (reportsIn additions).length = report ∧
        Connects root additions r source target ∧ ¬ Connected root additions source target :=
  exists_report_concat_iff

/-- Nodes that are connected at all have an earliest report that connects them. -/
theorem connected_iff_exists_earliest :
    Connected root additions source target ↔ ∃ i, Earliest root additions source target i := by
  induction additions using List.reverseRecOn with
  | nil => simp [Connected, Earliest]
  | append_singleton additions a ih =>
      simp only [connected_concat_iff, earliest_concat_iff, exists_or, ← ih]
      constructor
      · rintro (hconnected | ⟨r, rfl, hconnects⟩)
        · exact Or.inl hconnected
        · by_cases hconnected : Connected root additions source target
          · exact Or.inl hconnected
          · exact Or.inr ⟨_, r, rfl, rfl, hconnects, hconnected⟩
      · rintro (hconnected | ⟨-, r, rfl, -, hconnects, -⟩)
        · exact Or.inl hconnected
        · exact Or.inr ⟨r, rfl, hconnects⟩

theorem Known.append (h : Known additions source) (more : List Addition) :
    Known (additions ++ more) source := by
  cases source with
  | none => trivial
  | some id =>
      obtain ⟨m, hm, hid⟩ := h
      refine ⟨m, ?_, hid⟩
      rw [modulesIn, List.filterMap_append]
      exact List.mem_append_left _ hm

theorem Earliest.known (h : Earliest root additions source target report) :
    Known additions source ∧ Known additions (some target) := by
  obtain ⟨before, r, after, rfl, -, hconnects, -⟩ := h
  exact ⟨hconnects.knownSource.append _, hconnects.knownTarget.append _⟩

end Concat

/-! ## Graphs and their histories -/

/-- The number of a node. -/
def nodeOf? (g : ResolvedGraph) : Option ModuleId → Option Nat
  | none => some 0
  | some id => g.numbers.get? id

/-- The graph holds what its history says. -/
structure Traced (root : Coordinates) (additions : List Addition) (g : ResolvedGraph) : Prop where
  stored : g.Stored
  rooted : g.root = root
  /-- A module that was added has the number of its place. -/
  place : ∀ i m, g.added[i]? = some m → g.numbers.get? m.id = some (i + 1)
  first : ∀ m, m ∈ g.added ↔ firstModule? additions m.id = some m
  reports : g.reports.toList = reportsIn additions
  pairs : (g.links.map fun l => (l.source, l.target)).Nodup
  links : ∀ l, l ∈ g.links ↔ ∃ source target, g.nodeOf? source = some l.source ∧
    g.nodeOf? (some target) = some l.target ∧ Earliest root additions source target l.report

namespace Traced

variable {root : Coordinates} {additions : List Addition} {g : ResolvedGraph}
variable (h : Traced root additions g)

include h

theorem sourceNode?_eq (r : EdgeReport) : g.sourceNode? r.source = g.nodeOf? (origin root r) := by
  unfold sourceNode? origin
  rw [h.rooted]
  split <;> rfl

/-- A node has a number once it is known. -/
theorem known_iff {source : Option ModuleId} :
    Known additions source ↔ ∃ n, g.nodeOf? source = some n := by
  cases source with
  | none => exact ⟨fun _ => ⟨0, rfl⟩, fun _ => trivial⟩
  | some id =>
      constructor
      · rintro ⟨m, hm, rfl⟩
        obtain ⟨first, hfirst, hid⟩ := exists_find?_id hm
        rw [← hid] at hfirst ⊢
        obtain ⟨i, hi⟩ := Array.mem_iff_getElem?.1 ((h.first first).2 hfirst)
        exact ⟨i + 1, h.place i first hi⟩
      · rintro ⟨n, hn⟩
        obtain ⟨i, m, rfl, hm, rfl⟩ := h.stored.number id n hn
        have hfirst := (h.first m).1 (Array.mem_of_getElem? hm)
        exact ⟨m, List.mem_of_find?_eq_some hfirst, rfl⟩

theorem contains_eq_false_iff {id : ModuleId} :
    g.contains id = false ↔ firstModule? additions id = none := by
  have hknown : Known additions (some id) ↔ ∃ n, g.nodeOf? (some id) = some n := h.known_iff
  have hcontains : g.contains id = true ↔ Known additions (some id) :=
    SortedMap.contains_iff.trans hknown.symm
  rw [← Bool.not_eq_true, hcontains, firstModule?, List.find?_eq_none]
  simp [Known]

/-- Different modules have different numbers. -/
theorem number_inj {id id' : ModuleId} {n : Nat} (hn : g.numbers.get? id = some n)
    (hn' : g.numbers.get? id' = some n) : id = id' := by
  obtain ⟨i, m, rfl, hm, rfl⟩ := h.stored.number id n hn
  obtain ⟨i', m', heq, hm', rfl⟩ := h.stored.number id' _ hn'
  obtain rfl := Nat.succ.inj heq
  rw [Option.some.inj (hm.symm.trans hm')]

theorem node_inj {source source' : Option ModuleId} {n : Nat} (hn : g.nodeOf? source = some n)
    (hn' : g.nodeOf? source' = some n) : source = source' := by
  -- The root has number 0, and the number of a module is positive.
  cases source with
  | none =>
      obtain rfl := Option.some.inj hn
      cases source' with
      | none => rfl
      | some id' => exact absurd (h.stored.number_le hn').1 (Nat.lt_irrefl 0)
  | some id =>
      cases source' with
      | none =>
          obtain rfl := Option.some.inj hn'
          exact absurd (h.stored.number_le hn).1 (Nat.lt_irrefl 0)
      | some id' => rw [h.number_inj hn hn']

/-- Two nodes are linked if their history connects them. -/
theorem linked_iff {source : Option ModuleId} {target : ModuleId} {n n' : Nat}
    (hn : g.nodeOf? source = some n) (hn' : g.nodeOf? (some target) = some n') :
    g.linked n n' = true ↔ Connected root additions source target := by
  rw [linked, List.any_eq_true, connected_iff_exists_earliest]
  constructor
  · rintro ⟨l, hl, hends⟩
    obtain ⟨rfl, rfl⟩ : l.source = n ∧ l.target = n' := by simpa using hends
    obtain ⟨source', target', hs, ht, hearliest⟩ := (h.links l).1 hl
    obtain rfl := h.node_inj hn hs
    obtain rfl := Option.some.inj (h.node_inj hn' ht)
    exact ⟨l.report, hearliest⟩
  · rintro ⟨i, hearliest⟩
    exact ⟨⟨n, n', i⟩, (h.links _).2 ⟨source, target, hn, hn', hearliest⟩, by simp⟩

/-- A report adds a link if it is the earliest to connect its ends. -/
theorem newLink?_eq_some_iff {r : EdgeReport} {l : Link} : g.newLink? r = some l ↔
    ∃ source target, g.nodeOf? source = some l.source ∧ g.nodeOf? (some target) = some l.target ∧
      (reportsIn additions).length = l.report ∧ Connects root additions r source target ∧
        ¬ Connected root additions source target := by
  have hsize : g.reports.size = (reportsIn additions).length := by
    rw [← h.reports, Array.length_toList]
  constructor
  · intro hl
    unfold newLink? at hl
    split at hl
    · cases hl
    · next hstatus =>
      obtain ⟨n, hn, hl⟩ := Option.bind_eq_some_iff.1 hl
      obtain ⟨n', hn', hl⟩ := Option.bind_eq_some_iff.1 hl
      rw [h.sourceNode?_eq] at hn
      split at hl
      · cases hl
      · next hlinked =>
        obtain rfl := Option.some.inj hl
        refine ⟨origin root r, r.target, hn, hn', hsize.symm, ?_, ?_⟩
        · exact ⟨hstatus, rfl, rfl, h.known_iff.2 ⟨n, hn⟩, h.known_iff.2 ⟨n', hn'⟩⟩
        · rwa [h.linked_iff hn hn'] at hlinked
  · rintro ⟨source, target, hn, hn', hreport, ⟨hstatus, rfl, rfl, -, -⟩, hconnected⟩
    rw [← h.linked_iff hn hn'] at hconnected
    have htarget : g.numbers.get? r.target = some l.target := hn'
    unfold newLink?
    rw [if_neg hstatus, h.sourceNode?_eq, hn, htarget, hsize, hreport]
    exact if_neg hconnected

end Traced

/-! ## What an addition keeps -/

section Growth

variable {root : Coordinates} {additions : List Addition} {g : ResolvedGraph}

theorem traced_new (root : Coordinates) : Traced root [] { root } where
  stored := stored_new root
  rooted := rfl
  place := by simp
  first := by simp [firstModule?, modulesIn]
  reports := rfl
  pairs := List.nodup_nil
  links := by simp [Earliest]

theorem firstModule?_concat_module (additions : List Addition) (m : ResolvedModule)
    (id : ModuleId) : firstModule? (additions ++ [.module m]) id =
      (firstModule? additions id).or (if m.id = id then some m else none) := by
  unfold firstModule? modulesIn
  rw [List.filterMap_append, List.find?_append]
  by_cases hid : m.id = id <;> simp [Addition.module?, hid]

theorem firstModule?_concat_edge (additions : List Addition) (r : EdgeReport) (id : ModuleId) :
    firstModule? (additions ++ [.edge r]) id = firstModule? additions id := by
  simp [firstModule?, modulesIn, Addition.module?]

theorem reportsIn_concat_module (additions : List Addition) (m : ResolvedModule) :
    reportsIn (additions ++ [.module m]) = reportsIn additions := by
  rw [reportsIn, List.filterMap_append]
  exact List.append_nil _

/-- A module of an identity that is there is no news. -/
theorem Traced.skip_module (h : Traced root additions g) {m : ResolvedModule}
    (hcontains : g.contains m.id = true) : Traced root (additions ++ [.module m]) g where
  stored := h.stored
  rooted := h.rooted
  place := h.place
  first := by
    intro m'
    rw [h.first, firstModule?_concat_module]
    split
    · next hid =>
      have hsome : firstModule? additions m'.id ≠ none := by
        rw [Ne, ← h.contains_eq_false_iff, ← hid, hcontains]
        exact Bool.noConfusion
      obtain ⟨first, hfirst⟩ := Option.ne_none_iff_exists'.1 hsome
      rw [hfirst, Option.some_or]
    · rw [Option.or_none]
  reports := by rw [h.reports, reportsIn_concat_module]
  pairs := h.pairs
  links := by simpa [earliest_concat_iff] using h.links

/-- A module of a new identity gets the next number. -/
theorem Traced.push_module (h : Traced root additions g) {m : ResolvedModule}
    (hcontains : g.contains m.id = false) :
    Traced root (additions ++ [.module m]) (g.addModule m) := by
  have hadd := addModule_of_new hcontains
  have hadded : (g.addModule m).added = g.added.push m := by rw [hadd]
  have hlinks : (g.addModule m).links = g.links := by rw [hadd]
  have hkeep : ∀ {source : Option ModuleId} {n : Nat}, g.nodeOf? source = some n →
      (g.addModule m).nodeOf? source = some n := by
    intro source n hn
    cases source with
    | none => exact hn
    | some id => exact get?_numbers_addModule_of_some hn
  constructor
  case stored => exact stored_addModule h.stored m
  case rooted =>
    rw [hadd]
    exact h.rooted
  case place =>
    intro i m' hm'
    rw [hadded, Array.getElem?_push] at hm'
    split at hm'
    · next hi =>
      obtain rfl := Option.some.inj hm'
      rw [get?_numbers_addModule, if_pos ⟨rfl, hcontains⟩, hi]
      rfl
    · exact get?_numbers_addModule_of_some (h.place i m' hm')
  case first =>
    intro m'
    rw [hadded, Array.mem_push, h.first, firstModule?_concat_module]
    by_cases hid : m.id = m'.id
    · have hnone := h.contains_eq_false_iff.1 hcontains
      rw [if_pos hid, ← hid, hnone]
      simp [eq_comm]
    · have hne : m' ≠ m := fun heq => hid (by rw [heq])
      simp [hid, hne]
  case reports =>
    rw [hadd, reportsIn_concat_module]
    exact h.reports
  case pairs =>
    rw [hlinks]
    exact h.pairs
  case links =>
    intro l
    simp only [hlinks, h.links, earliest_concat_iff, reduceCtorEq, false_and, exists_false,
      or_false]
    -- The ends of a link were known before, and a module keeps its number.
    constructor
    · rintro ⟨source, target, hn, hn', hearliest⟩
      exact ⟨source, target, hkeep hn, hkeep hn', hearliest⟩
    · rintro ⟨source, target, hn, hn', hearliest⟩
      obtain ⟨n, hsource⟩ := h.known_iff.1 hearliest.known.1
      obtain ⟨n', htarget⟩ := h.known_iff.1 hearliest.known.2
      rw [hkeep hsource] at hn
      rw [hkeep htarget] at hn'
      exact ⟨source, target, hsource.trans hn, htarget.trans hn', hearliest⟩

/-- A report is listed, and linked if it is the earliest to connect its ends. -/
theorem Traced.push_edge (h : Traced root additions g) (r : EdgeReport) :
    Traced root (additions ++ [.edge r]) (g.addEdge r) where
  stored := stored_addEdge h.stored r
  rooted := h.rooted
  place := h.place
  first := by
    intro m
    rw [firstModule?_concat_edge]
    exact h.first m
  reports := by
    show (g.reports.push r).toList = _
    rw [Array.toList_push, h.reports]
    simp [reportsIn, Addition.report?]
  pairs := by
    show ((g.links ++ (g.newLink? r).toList).map _).Nodup
    rw [List.map_append]
    refine List.Nodup.append h.pairs (by cases g.newLink? r <;> simp) ?_
    -- A link between ends that are linked already would not be new.
    intro pair hold hnew
    obtain ⟨l, hl, rfl⟩ := List.mem_map.1 hnew
    obtain ⟨source, target, hn, hn', -, -, hconnected⟩ :=
      h.newLink?_eq_some_iff.1 (Option.mem_toList.1 hl)
    apply hconnected
    rw [← h.linked_iff hn hn', linked, List.any_eq_true]
    obtain ⟨l', hl', hpair⟩ := List.mem_map.1 hold
    obtain ⟨hsource, htarget⟩ := Prod.mk.inj hpair
    exact ⟨l', hl', by simp [hsource, htarget]⟩
  links := by
    intro l
    show l ∈ g.links ++ (g.newLink? r).toList ↔ _
    rw [List.mem_append, Option.mem_toList, h.links, h.newLink?_eq_some_iff]
    simp only [earliest_concat_iff, Addition.edge.injEq, exists_eq_left', and_or_left, exists_or]
    rfl

theorem traced_add (h : Traced root additions g) (a : Addition) :
    Traced root (additions ++ [a]) (g.add a) := by
  cases a with
  | edge r => exact h.push_edge r
  | module m =>
      show Traced root _ (g.addModule m)
      by_cases hcontains : g.contains m.id = true
      · rw [addModule, if_pos hcontains]
        exact h.skip_module hcontains
      · exact h.push_module (by simpa using hcontains)

theorem traced_grown (root : Coordinates) (additions : List Addition) :
    Traced root additions (grown root additions) := by
  induction additions using List.reverseRecOn with
  | nil => exact traced_new root
  | append_singleton additions a ih =>
      rw [grown, List.foldl_append]
      exact traced_add ih a

end Growth

/-! ## What a graph shows -/

/-- What a graph shows is what its history says. -/
structure Reflects (root : Coordinates) (additions : List Addition) (g : ResolvedGraph) :
    Prop where
  rooted : g.root = root
  /-- Modules are listed by identity, strictly upwards. -/
  ascending : g.modules.Pairwise fun m m' => compare m.id m'.id = .lt
  /-- The modules listed are the first of their identities. -/
  first : ∀ m, m ∈ g.modules ↔ firstModule? additions m.id = some m
  contains : ∀ id, g.contains id = g.modules.any (·.id == id)
  version : ∀ id, g.versionOf? id = (g.modules.find? (·.id == id)).map ResolvedModule.version
  size : g.size = g.modules.length
  reports : g.reports.toList = reportsIn additions
  /-- The modules listed are the nodes besides the root. -/
  node : ∀ id, (∃ n, g.nodeOf? (some id) = some n) ↔ ∃ m ∈ g.modules, m.id = id
  coordinates : ∀ m ∈ g.modules, ∀ n, g.nodeOf? (some m.id) = some n →
    g.coordinates n = m.coordinates
  apart : ∀ source source' n, g.nodeOf? source = some n → g.nodeOf? source' = some n →
    source = source'
  /-- No two links have the same ends. -/
  pairs : (g.links.map fun l => (l.source, l.target)).Nodup
  /-- Two nodes are linked for the earliest report that connects them, if there is one. -/
  links : ∀ l, l ∈ g.links ↔ ∃ source target, g.nodeOf? source = some l.source ∧
    g.nodeOf? (some target) = some l.target ∧ Earliest root additions source target l.report
  excluded : ∀ id, id ∈ g.excluded ↔
    (∃ r ∈ reportsIn additions, r.status = .excluded ∧ r.target = id) ∧
      ∀ m ∈ g.modules, m.id ≠ id

theorem map_filterMap_of_forall {f : ModuleId × Nat → Option ResolvedModule}
    {entries : List (ModuleId × Nat)} (h : ∀ e ∈ entries, ∃ m, f e = some m ∧ m.id = e.1) :
    (entries.filterMap f).map ResolvedModule.id = entries.map Prod.fst := by
  induction entries with
  | nil => rfl
  | cons e rest ih =>
      obtain ⟨m, hm, hid⟩ := h e List.mem_cons_self
      rw [List.filterMap_cons_some hm, List.map_cons, List.map_cons, hid,
        ih fun e' he' => h e' (List.mem_cons_of_mem _ he')]

/-- The modules are listed in the order of the index. -/
theorem Stored.map_modules {g : ResolvedGraph} (h : g.Stored) :
    g.modules.map ResolvedModule.id = g.numbers.keys := by
  unfold modules SortedMap.values
  rw [List.filterMap_map]
  apply map_filterMap_of_forall
  rintro ⟨id, n⟩ he
  obtain ⟨i, m, rfl, hm, hid⟩ := h.number id n (SortedMap.mem_entries_iff.1 he)
  exact ⟨m, hm, hid⟩

namespace Traced

variable {root : Coordinates} {additions : List Addition} {g : ResolvedGraph}
variable (h : Traced root additions g)

include h

theorem mem_modules_iff {m : ResolvedModule} : m ∈ g.modules ↔ m ∈ g.added := by
  rw [h.stored.mem_modules, Array.mem_iff_getElem?]
  constructor
  · rintro ⟨i, -, hi⟩
    exact ⟨i, hi⟩
  · rintro ⟨i, hi⟩
    exact ⟨i, h.place i m hi, hi⟩

/-- A module that was added is listed once. -/
theorem perm_modules : g.modules.Perm g.added.toList := by
  refine (List.perm_ext_iff_of_nodup ?_ ?_).2 fun m => ?_
  · apply List.Nodup.of_map ResolvedModule.id
    rw [h.stored.map_modules]
    exact g.numbers.nodup_keys
  · -- A module listed twice would have two numbers.
    refine List.nodup_iff_injective_getElem.2 fun i j hij => Fin.ext ?_
    have hi := h.place i.1 g.added.toList[i.1] (by simp)
    have hj := h.place j.1 g.added.toList[j.1] (by simp)
    have heq : g.added.toList[i.1] = g.added.toList[j.1] := hij
    rw [heq, hj] at hi
    exact (Nat.succ.inj (Option.some.inj hi)).symm
  · rw [h.mem_modules_iff, Array.mem_toList_iff]

theorem number_iff {id : ModuleId} :
    (∃ n, g.numbers.get? id = some n) ↔ ∃ m ∈ g.modules, m.id = id := by
  rw [← SortedMap.mem_keys_iff, ← h.stored.map_modules, List.mem_map]

theorem contains_eq_any (id : ModuleId) : g.contains id = g.modules.any (·.id == id) := by
  rw [Bool.eq_iff_iff, contains, SortedMap.contains_iff, h.number_iff]
  simp

/-- The module listed under an identity is found by it. -/
theorem find?_modules {m : ResolvedModule} (hm : m ∈ g.modules) :
    g.modules.find? (·.id == m.id) = some m := by
  obtain ⟨m', hm', hid⟩ := exists_find?_id hm
  rw [hm', h.stored.eq_of_mem_modules (List.mem_of_find?_eq_some hm') hm hid]

theorem versionOf?_eq (id : ModuleId) :
    g.versionOf? id = (g.modules.find? (·.id == id)).map ResolvedModule.version := by
  unfold versionOf?
  cases hn : g.numbers.get? id with
  | none =>
      have hnone : g.modules.find? (·.id == id) = none := by
        apply List.find?_eq_none.2
        intro m hm
        have hid : m.id ≠ id := by
          rintro rfl
          obtain ⟨n, hn'⟩ := h.number_iff.2 ⟨m, hm, rfl⟩
          rw [hn] at hn'
          cases hn'
        simpa using hid
      rw [hnone]
      rfl
  | some n =>
      obtain ⟨i, m, rfl, hm, rfl⟩ := h.stored.number id n hn
      rw [h.find?_modules (h.stored.mem_modules.2 ⟨i, hn, hm⟩)]
      show Option.bind (g.added[i]?) _ = _
      rw [hm]
      rfl

theorem mem_excluded_iff (id : ModuleId) : id ∈ g.excluded ↔
    (∃ r ∈ reportsIn additions, r.status = .excluded ∧ r.target = id) ∧
      ∀ m ∈ g.modules, m.id ≠ id := by
  rw [excluded, SortedSet.mem_ofList, h.reports, List.mem_map]
  simp only [List.mem_filter, Bool.and_eq_true, decide_eq_true_eq, Bool.not_eq_true',
    h.contains_eq_any, List.any_eq_false, beq_iff_eq]
  constructor
  · rintro ⟨r, ⟨hr, hstatus, hselected⟩, rfl⟩
    exact ⟨⟨r, hr, hstatus, rfl⟩, hselected⟩
  · rintro ⟨⟨r, hr, hstatus, rfl⟩, hselected⟩
    exact ⟨r, ⟨hr, hstatus, hselected⟩, rfl⟩

end Traced

/-- After any additions to a new graph, in any order, the graph shows what they say. -/
theorem reflects_grown (root : Coordinates) (additions : List Addition) :
    Reflects root additions (grown root additions) := by
  have h := traced_grown root additions
  constructor
  case rooted => exact h.rooted
  case ascending =>
    have hascending : Increasing ((grown root additions).modules.map ResolvedModule.id) := by
      rw [h.stored.map_modules]
      exact (grown root additions).numbers.increasing
    exact List.pairwise_map.1 hascending
  case first =>
    intro m
    rw [h.mem_modules_iff, h.first]
  case contains => exact h.contains_eq_any
  case version => exact h.versionOf?_eq
  case size =>
    rw [h.perm_modules.length_eq, Array.length_toList]
    rfl
  case reports => exact h.reports
  case node => exact fun _ => h.number_iff
  case coordinates =>
    intro m hm n hn
    obtain ⟨m', hm', hid, hcoordinates⟩ := h.stored.exists_mem_modules hn
    rw [hcoordinates, h.stored.eq_of_mem_modules hm' hm hid]
  case apart => exact fun _ _ _ => h.node_inj
  case pairs => exact h.pairs
  case links => exact h.links
  case excluded => exact h.mem_excluded_iff

end ResolvedGraph

namespace Sample

/-- The first report of the edge to `core` comes before its target, which is added twice. `log` is
excluded. -/
def early : List ResolvedGraph.Addition :=
  [.edge (need "app" "core"), .module (member "core"), .edge (need "app" "core"),
    .module { member "core" with version := "2" }, .edge (need "app" "core"),
    .edge { need "app" "log" with selected := none, status := .excluded }]

def reported : ResolvedGraph :=
  .grown (member "app").coordinates early

end Sample

/-- The edge is linked for its second report, and goes to the `core` that was added first. -/
theorem ResolvedGraph.reflects_over_early :
    Sample.reported.links = [⟨0, 1, 1⟩] ∧
    (∃ source target, Sample.reported.nodeOf? source = some 0 ∧
      Sample.reported.nodeOf? (some target) = some 1 ∧
      Earliest (Sample.member "app").coordinates Sample.early source target 1) ∧
    (firstModule? Sample.early (Sample.member "core").id = some (Sample.member "core") ∧
      Sample.reported.nodeOf? (some (Sample.member "core").id) = some 1 ∧
      Sample.reported.coordinates 1 = (Sample.member "core").coordinates) ∧
    (∃ r ∈ reportsIn Sample.early, r.status = .excluded ∧ r.target = (Sample.member "log").id) ∧
      (Sample.member "log").id ∈ Sample.reported.excluded := by
  have h := reflects_grown (Sample.member "app").coordinates Sample.early
  have hlinks : Sample.reported.links = [⟨0, 1, 1⟩] := by decide
  have hfirst :
      firstModule? Sample.early (Sample.member "core").id = some (Sample.member "core") := by
    decide
  have hnode : Sample.reported.nodeOf? (some (Sample.member "core").id) = some 1 := by decide
  have hreport : ∃ r ∈ reportsIn Sample.early,
      r.status = .excluded ∧ r.target = (Sample.member "log").id := by
    decide
  have hunselected : ∀ m ∈ Sample.reported.modules, m.id ≠ (Sample.member "log").id := by decide
  refine ⟨hlinks, (h.links ⟨0, 1, 1⟩).1 ?_, ⟨hfirst, hnode, ?_⟩, hreport, ?_⟩
  · exact hlinks ▸ List.mem_singleton_self _
  · exact h.coordinates _ ((h.first _).2 hfirst) 1 hnode
  · exact (h.excluded _).2 ⟨hreport, hunselected⟩

end Lockstep
