import Lockstep.Proofs.Paths

/-!
# Routes to named modules

A key names a module by its identity, or by its bare name, which stands for the
least identity of that name (`Names`, `node?_eq_some_iff`). Whatever has been
added to a graph, the question how a module comes into it has an answer if links
lead to the module from the root, and the answer is a path of links that has no
node twice (`Route`, `path?_grown`).
-/

namespace Lockstep

/-! ## Identities as texts -/

namespace ModuleId

/-- Both parts can be read back: they are not empty and have no colon. -/
structure Proper (id : ModuleId) : Prop where
  group : id.group ≠ "" ∧ ':' ∉ id.group.toList
  name : id.name ≠ "" ∧ ':' ∉ id.name.toList

theorem toList_text (id : ModuleId) :
    id.text.toList = id.group.toList ++ ':' :: id.name.toList := by
  simp [text]

theorem ofString?_eq_some_iff {s : String} {id : ModuleId} :
    ofString? s = some id ↔ id.Proper ∧ id.text = s := by
  constructor
  · intro h
    unfold ofString? at h
    cases hcut : Text.cut ':' s.toList with
    | none =>
        rw [hcut] at h
        cases h
    | some parts =>
        obtain ⟨group, name⟩ := parts
        rw [hcut] at h
        dsimp only at h
        split at h
        · cases h
        · next hread =>
          obtain rfl := Option.some.inj h
          simp only [Bool.or_eq_true, not_or, List.isEmpty_iff, List.contains_iff_mem] at hread
          obtain ⟨⟨hgroup, hname⟩, hcolon⟩ := hread
          refine ⟨⟨⟨?_, ?_⟩, ?_, ?_⟩, ?_⟩
          · simpa using hgroup
          · simpa using Text.not_mem_of_cut hcut
          · simpa using hname
          · simpa using hcolon
          · apply String.toList_injective
            rw [toList_text, Text.eq_of_cut hcut]
            simp
  · rintro ⟨⟨⟨hgroup, hgroup'⟩, hname, hname'⟩, rfl⟩
    unfold ofString?
    rw [toList_text, Text.cut_append hgroup']
    simp [hgroup, hname, hname']

end ModuleId

namespace ResolvedGraph

variable {g : ResolvedGraph} {key : String} {m : ResolvedModule} {n : Nat}

/-! ## Names -/

/-- A key names a module: by its identity, or by its name alone, if no other identity of this name
comes before it. -/
inductive Names (g : ResolvedGraph) (key : String) (m : ResolvedModule) : Prop
  | identity (hm : m ∈ g.modules) (hproper : m.id.Proper) (htext : m.id.text = key)
  | name (hm : m ∈ g.modules) (hbare : ∀ id : ModuleId, id.Proper → id.text ≠ key)
      (hname : m.id.name = key)
      (hfirst : ∀ m' ∈ g.modules, m'.id.name = key → (compare m.id m'.id).isLE = true)

theorem Names.mem_modules (h : g.Names key m) : m ∈ g.modules := by
  cases h with
  | identity hm => exact hm
  | name hm => exact hm

/-- Among identities that can be read back, a name is never taken for an identity. -/
theorem names_iff_of_proper (hproper : ∀ m ∈ g.modules, m.id.Proper) : g.Names key m ↔
    m ∈ g.modules ∧ (m.id.text = key ∨ m.id.name = key ∧
      ∀ m' ∈ g.modules, m'.id.name = key → (compare m.id m'.id).isLE = true) := by
  constructor
  · intro h
    cases h with
    | identity hm _ htext => exact ⟨hm, .inl htext⟩
    | name hm _ hname hfirst => exact ⟨hm, .inr ⟨hname, hfirst⟩⟩
  · rintro ⟨hm, htext | ⟨rfl, hfirst⟩⟩
    · exact .identity hm (hproper m hm) htext
    · refine .name hm (fun id _ heq => ?_) rfl hfirst
      apply (hproper m hm).name.2
      rw [← heq, ModuleId.toList_text]
      simp

/-- The node of a key is that of the module it names. -/
theorem node?_eq_some_iff (h : g.Stored) :
    g.node? key = some n ↔ ∃ m, g.Names key m ∧ g.numbers.get? m.id = some n := by
  unfold node?
  cases hkey : ModuleId.ofString? key with
  | some id =>
      obtain ⟨hproper, rfl⟩ := ModuleId.ofString?_eq_some_iff.1 hkey
      constructor
      · intro hn
        obtain ⟨m, hm, rfl, -⟩ := h.exists_mem_modules hn
        exact ⟨m, .identity hm hproper rfl, hn⟩
      · rintro ⟨m, hnames, hn⟩
        cases hnames with
        | identity _ hproper' htext =>
            have hread := ModuleId.ofString?_eq_some_iff.2 ⟨hproper', htext⟩
            rw [Option.some.inj (hkey.symm.trans hread)]
            exact hn
        | name _ hbare => exact absurd rfl (hbare id hproper)
  | none =>
      have hbare : ∀ id : ModuleId, id.Proper → id.text ≠ key := by
        intro id hproper htext
        rw [ModuleId.ofString?_eq_some_iff.2 ⟨hproper, htext⟩] at hkey
        cases hkey
      show Option.map Prod.snd _ = some n ↔ _
      rw [Option.map_eq_some_iff]
      constructor
      · rintro ⟨⟨id, n⟩, hfind, rfl⟩
        obtain ⟨⟨hn, hname⟩, hfirst⟩ := SortedMap.find?_entries_eq_some_iff.1 hfind
        obtain ⟨m, hm, rfl, -⟩ := h.exists_mem_modules hn
        refine ⟨m, .name hm hbare (by simpa using hname) fun m' hm' hname' => ?_, hn⟩
        obtain ⟨i, hi, -⟩ := h.mem_modules.1 hm'
        exact hfirst m'.id (i + 1) hi (by simpa using hname')
      · rintro ⟨m, hnames, hn⟩
        cases hnames with
        | identity _ hproper htext => exact absurd htext (hbare m.id hproper)
        | name hm _ hname hfirst =>
            refine ⟨(m.id, n),
              SortedMap.find?_entries_eq_some_iff.2 ⟨⟨hn, by simpa using hname⟩, ?_⟩, rfl⟩
            intro id n' hn' hname'
            obtain ⟨m', hm', rfl, -⟩ := h.exists_mem_modules hn'
            exact hfirst m' hm' (by simpa using hname')

/-! ## Routes -/

/-- A path from the root to a module along links, with its nodes, none of which is on it twice. -/
structure Route (g : ResolvedGraph) (m : ResolvedModule) (nodes : List Nat)
    (path : List Coordinates) : Prop where
  shown : path = nodes.map g.coordinates
  first : nodes.head? = some 0 ∧ path.head? = some g.root
  last : nodes.getLast? = g.numbers.get? m.id ∧ path.getLast? = some m.coordinates
  once : nodes.Nodup
  linked : nodes.IsChain fun a b => g.linked a b = true

theorem route_of_explores (h : g.Stored) (hm : m ∈ g.modules) (hn : g.numbers.get? m.id = some n)
    {nodes after : List Nat} (he : g.Explores n [0] [] (some nodes) after) :
    g.Route m nodes (nodes.map g.coordinates) := by
  obtain ⟨start, hstart, hway⟩ := he.exists_way h
  rw [List.mem_singleton.1 hstart] at hway
  obtain ⟨m', hm', hid, hcoordinates⟩ := h.exists_mem_modules hn
  obtain rfl := h.eq_of_mem_modules hm' hm hid
  constructor
  case shown => rfl
  case first =>
    rw [List.head?_map, hway.first]
    exact ⟨rfl, rfl⟩
  case last =>
    rw [List.getLast?_map, hway.last, hn]
    exact ⟨rfl, congrArg some hcoordinates⟩
  case once => exact he.nodup.1
  case linked => exact hway.linked

/-- What the nodes of a route are linked by leads from the root to its module. -/
theorem Route.reaches {nodes : List Nat} {path : List Coordinates} (h : g.Route m nodes path)
    (hn : g.numbers.get? m.id = some n) :
    Relation.ReflTransGen (fun a b => g.linked a b = true) 0 n := by
  have hfirst := h.first.1
  have hlast := h.last.1
  rw [hn] at hlast
  have hne : nodes ≠ [] := by
    rintro rfl
    cases hlast
  have hchain := List.relationReflTransGen_of_exists_isChain nodes h.linked hne
  rw [List.head?_eq_some_head hne] at hfirst
  rw [List.getLast?_eq_some_getLast hne] at hlast
  rwa [Option.some.inj hfirst, Option.some.inj hlast] at hchain

/-- To the path of a key belongs the one course of the search for its module. -/
theorem path?_eq_of_names (h : g.Stored) (hnames : g.Names key m)
    (hn : g.numbers.get? m.id = some n) : ∃ found after, g.Explores n [0] [] found after ∧
      g.path? key = found.map fun nodes => nodes.map g.coordinates := by
  refine ⟨_, _, explores_search h n, ?_⟩
  unfold path?
  rw [(node?_eq_some_iff h).2 ⟨m, hnames, hn⟩]
  show ((g.search n (g.size + 2) 0 []).1.bind fun nodes => some (nodes.map g.coordinates)) = _
  cases (g.search n (g.size + 2) 0 []).1 <;> rfl

theorem exists_names_of_path? (h : g.Stored) {path : List Coordinates}
    (hpath : g.path? key = some path) : ∃ m n, g.Names key m ∧ g.numbers.get? m.id = some n := by
  obtain ⟨n, hn, -⟩ := Option.bind_eq_some_iff.1 hpath
  obtain ⟨m, hnames, hnumber⟩ := (node?_eq_some_iff h).1 hn
  exact ⟨m, n, hnames, hnumber⟩

/-- Whatever has been added to a graph, the search for a module that a key names has one course and
comes to an end. It finds a path if and only if links lead from the root to the module, and then one
along links from the root to the module with no node twice. There are no other paths. -/
theorem path?_grown (root : Coordinates) (additions : List Addition) (key : String) :
    let g := grown root additions
    (∀ m n, g.Names key m → g.numbers.get? m.id = some n → ∃ found after,
      g.Explores n [0] [] found after ∧
      (∀ found' after', g.Explores n [0] [] found' after' → found' = found ∧ after' = after) ∧
      g.path? key = found.map fun nodes => nodes.map g.coordinates) ∧
    ((∃ path, g.path? key = some path) ↔ ∃ m n, g.Names key m ∧ g.numbers.get? m.id = some n ∧
      Relation.ReflTransGen (fun a b => g.linked a b = true) 0 n) ∧
    ∀ path, g.path? key = some path → ∃ m nodes, g.Names key m ∧ g.Route m nodes path := by
  intro g
  have h : g.Stored := stored_grown root additions
  have hroute : ∀ path, g.path? key = some path →
      ∃ m n nodes, g.Names key m ∧ g.numbers.get? m.id = some n ∧ g.Route m nodes path := by
    intro path hpath
    obtain ⟨m, n, hnames, hn⟩ := exists_names_of_path? h hpath
    obtain ⟨found, after, he, heq⟩ := path?_eq_of_names h hnames hn
    obtain ⟨nodes, rfl, rfl⟩ := Option.map_eq_some_iff.1 (heq.symm.trans hpath)
    exact ⟨m, n, nodes, hnames, hn, route_of_explores h hnames.mem_modules hn he⟩
  refine ⟨?course, ⟨?sound, ?complete⟩, ?route⟩
  case course =>
    intro m n hnames hn
    obtain ⟨found, after, he, heq⟩ := path?_eq_of_names h hnames hn
    exact ⟨found, after, he, fun found' after' he' => he.unique he', heq⟩
  case sound =>
    rintro ⟨path, hpath⟩
    obtain ⟨m, n, nodes, hnames, hn, hr⟩ := hroute path hpath
    exact ⟨m, n, hnames, hn, hr.reaches hn⟩
  case complete =>
    rintro ⟨m, n, hnames, hn, hreaches⟩
    obtain ⟨found, after, he, heq⟩ := path?_eq_of_names h hnames hn
    obtain ⟨nodes, hsearch, -⟩ := exists_way_of_reaches h hreaches
    obtain ⟨hfound, -⟩ := he.unique (explores_search h n)
    rw [heq, ← hfound, hsearch]
    exact ⟨_, rfl⟩
  case route =>
    intro path hpath
    obtain ⟨m, n, nodes, hnames, -, hr⟩ := hroute path hpath
    exact ⟨m, nodes, hnames, hr⟩

end ResolvedGraph

namespace Sample

/-- `auth` and `base` need each other. The root needs `auth`, and then `core`. -/
def circling : List ResolvedGraph.Addition :=
  [.module (member "auth"), .module (member "base"), .module (member "core"),
    .edge (need "app" "auth"), .edge (need "auth" "base"), .edge (need "base" "auth"),
    .edge (need "app" "core")]

def circle : ResolvedGraph :=
  .grown (member "app").coordinates circling

end Sample

/-- The search leaves a circle behind and goes on. -/
theorem ResolvedGraph.path?_over_circle :
    let path := [(Sample.member "app").coordinates, (Sample.member "core").coordinates]
    Sample.circle.path? "core" = some path ∧
    (∃ m found after, Sample.circle.Names "core" m ∧ Sample.circle.numbers.get? m.id = some 3 ∧
      Sample.circle.Explores 3 [0] [] found after ∧
      some path = found.map fun nodes => nodes.map Sample.circle.coordinates) ∧
    (∃ m n, Sample.circle.Names "core" m ∧ Sample.circle.numbers.get? m.id = some n ∧
      Relation.ReflTransGen (fun a b => Sample.circle.linked a b = true) 0 n) ∧
    ∃ m nodes, Sample.circle.Names "core" m ∧ Sample.circle.Route m nodes path := by
  intro path
  have hpath : Sample.circle.path? "core" = some path := by decide
  have hnode : Sample.circle.node? "core" = some 3 := by decide
  obtain ⟨m, hnames, hn⟩ := (node?_eq_some_iff (stored_grown _ Sample.circling)).1 hnode
  obtain ⟨hcourse, hreached, hroute⟩ :=
    path?_grown (Sample.member "app").coordinates Sample.circling "core"
  obtain ⟨found, after, hexplores, -, hfound⟩ := hcourse m 3 hnames hn
  exact ⟨hpath, ⟨m, found, after, hnames, hn, hexplores, hpath.symm.trans hfound⟩,
    hreached.1 ⟨path, hpath⟩, hroute path hpath⟩

end Lockstep
