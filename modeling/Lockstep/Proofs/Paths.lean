import Lockstep.Proofs.Store
import Mathlib.Data.List.Chain
import Mathlib.Logic.Relation

/-!
# Ways from the root

The search enters each node once, so its bound is never what ends it: it takes
the course that it would take without one (`explores_search`). If it finds a way,
that way follows links from where the search began to the target
(`Explores.exists_way`) and has no node twice (`Explores.nodup`); if it finds
none, the nodes that it entered are closed under links and the target is not one
of them (`Explores.exhausted`). Hence it finds a way to whatever links reach
(`exists_way_of_reaches`).
-/

namespace Lockstep

namespace ResolvedGraph

variable {g : ResolvedGraph} {target : Nat}

/-- The nodes that links lead to from a node, in the order in which they are tried. -/
def children (g : ResolvedGraph) (n : Nat) : List Nat :=
  (g.dependencies n).map Prod.fst

theorem mem_children (h : g.Stored) {n m : Nat} : m ∈ g.children n ↔ g.linked n m = true := by
  unfold children dependencies linked
  rw [List.any_eq_true]
  simp only [List.mem_map, sortBy_eq, List.mem_insertionSort, List.mem_filterMap, List.mem_filter,
    Option.map_eq_some_iff, Bool.and_eq_true, beq_iff_eq]
  constructor
  · rintro ⟨_, ⟨l, ⟨hl, hsource⟩, r, -, rfl⟩, rfl⟩
    exact ⟨l, hl, hsource, rfl⟩
  · rintro ⟨l, hl, hsource, rfl⟩
    obtain ⟨r, hr, -⟩ := h.link l hl
    exact ⟨(l.target, r), ⟨l, ⟨hl, hsource⟩, r, hr, rfl⟩, rfl⟩

theorem child_le (h : g.Stored) {n m : Nat} (hm : m ∈ g.children n) : m ≤ g.size := by
  obtain ⟨l, hl, hcond⟩ := List.any_eq_true.1 ((mem_children h).1 hm)
  rw [Bool.and_eq_true, beq_iff_eq, beq_iff_eq] at hcond
  obtain ⟨r, -, -, -, htarget⟩ := h.link l hl
  rw [← hcond.2]
  exact (h.number_le htarget).2

/-! ## One node after the other -/

/-- Searches from several nodes in turn, until one of them leads to the target. -/
def searchAll (g : ResolvedGraph) (target depth : Nat) :
    List Nat → List Nat → Option (List Nat) × List Nat
  | [], entered => (none, entered)
  | m :: rest, entered =>
    match g.search target depth m entered with
    | (some path, entered) => (some path, entered)
    | (none, entered) => searchAll g target depth rest entered

theorem foldl_eq_searchAll {depth : Nat}
    {f : Option (List Nat) × List Nat → Nat × EdgeReport → Option (List Nat) × List Nat}
    (hfound : ∀ path entered x, f (some path, entered) x = (some path, entered))
    (hnone : ∀ entered m r, f (none, entered) (m, r) = g.search target depth m entered)
    (ms : List (Nat × EdgeReport)) (entered : List Nat) :
    ms.foldl f (none, entered) = g.searchAll target depth (ms.map Prod.fst) entered := by
  have hstop : ∀ (ms : List (Nat × EdgeReport)) (path : List Nat) (entered : List Nat),
      ms.foldl f (some path, entered) = (some path, entered) := by
    intro ms path entered
    induction ms with
    | nil => rfl
    | cons x rest ih => rw [List.foldl_cons, hfound, ih]
  induction ms generalizing entered with
  | nil => rfl
  | cons x rest ih =>
      obtain ⟨m, r⟩ := x
      rw [List.foldl_cons, List.map_cons, hnone]
      unfold searchAll
      cases hs : g.search target depth m entered with
      | mk found entered' =>
          cases found with
          | some path => exact hstop rest path entered'
          | none => exact ih entered'

theorem search_succ (g : ResolvedGraph) (target depth n : Nat) (entered : List Nat) :
    g.search target (depth + 1) n entered =
      if n = target then (some [n], entered)
      else if n ∈ entered then (none, entered)
      else
        let (found, entered) := g.searchAll target depth (g.children n) (n :: entered)
        (found.map (n :: ·), entered) := by
  conv_lhs => unfold search
  rw [foldl_eq_searchAll (fun _ _ _ => rfl) (fun _ _ _ => rfl)]
  simp only [List.contains_iff_mem]
  rfl

theorem search_eq_searchAll (g : ResolvedGraph) (target depth n : Nat) (entered : List Nat) :
    g.search target depth n entered = g.searchAll target depth [n] entered := by
  unfold searchAll
  split
  · next heq => rw [heq]
  · next heq => rw [heq]; rfl

theorem searchAll_cons (g : ResolvedGraph) (target depth n : Nat) (rest entered : List Nat) :
    g.searchAll target (depth + 1) (n :: rest) entered =
      if n = target then (some [n], entered)
      else if n ∈ entered then g.searchAll target (depth + 1) rest entered
      else match g.searchAll target depth (g.children n) (n :: entered) with
        | (some path, after) => (some (n :: path), after)
        | (none, between) => g.searchAll target (depth + 1) rest between := by
  conv_lhs => unfold searchAll
  rw [search_succ]
  by_cases htarget : n = target
  · rw [if_pos htarget, if_pos htarget]
  · rw [if_neg htarget, if_neg htarget]
    by_cases hentered : n ∈ entered
    · rw [if_pos hentered, if_pos hentered]
    · rw [if_neg hentered, if_neg hentered]
      cases g.searchAll target depth (g.children n) (n :: entered) with
      | mk found after => cases found <;> rfl

/-! ## The course of a search -/

/-- The course of a search without a bound, from several nodes in turn: the nodes to try, the nodes
entered before, the path that is found, if any, and all nodes entered by then. -/
inductive Explores (g : ResolvedGraph) (target : Nat) :
    List Nat → List Nat → Option (List Nat) → List Nat → Prop
  | done {entered : List Nat} : Explores g target [] entered none entered
  | arrived {rest entered : List Nat} :
      Explores g target (target :: rest) entered (some [target]) entered
  | known {n : Nat} {rest entered after : List Nat} {found : Option (List Nat)}
      (hne : n ≠ target) (hn : n ∈ entered) (hrest : Explores g target rest entered found after) :
      Explores g target (n :: rest) entered found after
  | found {n : Nat} {rest entered path after : List Nat} (hne : n ≠ target) (hn : n ∉ entered)
      (hbelow : Explores g target (g.children n) (n :: entered) (some path) after) :
      Explores g target (n :: rest) entered (some (n :: path)) after
  | left {n : Nat} {rest entered between after : List Nat} {found : Option (List Nat)}
      (hne : n ≠ target) (hn : n ∉ entered)
      (hbelow : Explores g target (g.children n) (n :: entered) none between)
      (hrest : Explores g target rest between found after) :
      Explores g target (n :: rest) entered found after

namespace Explores

variable {ns entered after : List Nat} {found : Option (List Nat)}

/-- A search takes one course. -/
theorem unique (he : g.Explores target ns entered found after) {found' : Option (List Nat)}
    {after' : List Nat} (he' : g.Explores target ns entered found' after') :
    found' = found ∧ after' = after := by
  induction he generalizing found' after' with
  | done =>
      cases he'
      exact ⟨rfl, rfl⟩
  | arrived =>
      cases he' with
      | arrived => exact ⟨rfl, rfl⟩
      | known hne => exact absurd rfl hne
      | found hne => exact absurd rfl hne
      | left hne => exact absurd rfl hne
  | known hne hn _ ih =>
      cases he' with
      | arrived => exact absurd rfl hne
      | known _ _ hrest => exact ih hrest
      | found _ hn' => exact absurd hn hn'
      | left _ hn' => exact absurd hn hn'
  | found hne hn _ ih =>
      cases he' with
      | arrived => exact absurd rfl hne
      | known _ hn' => exact absurd hn' hn
      | found _ _ hbelow =>
          obtain ⟨heq, rfl⟩ := ih hbelow
          rw [Option.some.inj heq]
          exact ⟨rfl, rfl⟩
      | left _ _ hbelow => cases (ih hbelow).1
  | left hne hn _ _ ih ih' =>
      cases he' with
      | arrived => exact absurd rfl hne
      | known _ hn' => exact absurd hn' hn
      | found _ _ hbelow => cases (ih hbelow).1
      | left _ _ hbelow hrest =>
          obtain ⟨-, rfl⟩ := ih hbelow
          exact ih' hrest

/-- What has been entered stays so. -/
theorem kept (he : g.Explores target ns entered found after) : ∀ m ∈ entered, m ∈ after := by
  induction he with
  | done => exact fun _ hm => hm
  | arrived => exact fun _ hm => hm
  | known _ _ _ ih => exact ih
  | found _ _ _ ih => exact fun m hm => ih m (List.mem_cons_of_mem _ hm)
  | left _ _ _ _ ih ih' => exact fun m hm => ih' m (ih m (List.mem_cons_of_mem _ hm))

end Explores

/-- The number of nodes that have not been entered. -/
def unentered (g : ResolvedGraph) (entered : List Nat) : Nat :=
  ((List.range (g.size + 1)).filter (· ∉ entered)).length

theorem unentered_le {before after : List Nat} (hkept : ∀ m ∈ before, m ∈ after) :
    g.unentered after ≤ g.unentered before := by
  refine (List.monotone_filter_right _ ?_).length_le
  intro m hm
  rw [decide_eq_true_eq] at hm ⊢
  exact fun hin => hm (hkept m hin)

theorem unentered_cons_lt {n : Nat} {entered : List Nat} (hn : n ≤ g.size) (hnew : n ∉ entered) :
    g.unentered (n :: entered) < g.unentered entered := by
  have hsub : ((List.range (g.size + 1)).filter (· ∉ n :: entered)).Sublist
      ((List.range (g.size + 1)).filter (· ∉ entered)) := by
    refine List.monotone_filter_right _ ?_
    intro m hm
    rw [decide_eq_true_eq] at hm ⊢
    exact fun hin => hm (List.mem_cons_of_mem _ hin)
  refine Nat.lt_of_le_of_ne hsub.length_le fun hlength => ?_
  have hmem : n ∈ (List.range (g.size + 1)).filter (· ∉ entered) :=
    List.mem_filter.2 ⟨List.mem_range.2 (Nat.lt_succ_of_le hn), decide_eq_true hnew⟩
  rw [← hsub.eq_of_length hlength] at hmem
  exact of_decide_eq_true (List.mem_filter.1 hmem).2 List.mem_cons_self

/-- As long as the bound exceeds the number of nodes that are left to enter, it does not matter. -/
theorem explores_searchAll (h : g.Stored) {depth : Nat} {ns entered : List Nat}
    (hns : ∀ n ∈ ns, n ≤ g.size) (hdepth : g.unentered entered < depth) :
    g.Explores target ns entered (g.searchAll target depth ns entered).1
      (g.searchAll target depth ns entered).2 := by
  -- Into the children of a node the bound falls, and so does what is left to enter; from one node
  -- to the next the bound stays.
  induction depth generalizing ns entered with
  | zero => cases hdepth
  | succ depth ih =>
      induction ns generalizing entered with
      | nil => exact .done
      | cons n rest ihrest =>
          rw [List.forall_mem_cons] at hns
          rw [searchAll_cons]
          by_cases htarget : n = target
          · subst htarget
            rw [if_pos rfl]
            exact .arrived
          · rw [if_neg htarget]
            by_cases hentered : n ∈ entered
            · rw [if_pos hentered]
              exact .known htarget hentered (ihrest hns.2 hdepth)
            · rw [if_neg hentered]
              have hless := unentered_cons_lt hns.1 hentered
              have hchildren : ∀ m ∈ g.children n, m ≤ g.size := fun m hm => child_le h hm
              have hbelow := ih hchildren (Nat.lt_of_lt_of_le hless (Nat.le_of_lt_succ hdepth))
              cases heq : g.searchAll target depth (g.children n) (n :: entered) with
              | mk found between =>
                  rw [heq] at hbelow
                  cases found with
                  | some path => exact .found htarget hentered hbelow
                  | none =>
                      have hbetween := unentered_le (g := g) hbelow.kept
                      exact .left htarget hentered hbelow (ihrest hns.2 (by omega))

theorem explores_search (h : g.Stored) (target : Nat) :
    g.Explores target [0] [] (g.search target (g.size + 2) 0 []).1
      (g.search target (g.size + 2) 0 []).2 := by
  rw [search_eq_searchAll]
  apply explores_searchAll h
  · simp
  · have hle := List.length_filter_le (· ∉ ([] : List Nat)) (List.range (g.size + 1))
    rw [List.length_range] at hle
    exact Nat.lt_succ_of_le hle

/-! ## A way that is found -/

/-- A way along links from one node to another. -/
structure Way (g : ResolvedGraph) (n target : Nat) (path : List Nat) : Prop where
  first : path.head? = some n
  last : path.getLast? = some target
  linked : path.IsChain fun a b => g.linked a b = true

theorem way_self (g : ResolvedGraph) (n : Nat) : g.Way n n [n] :=
  ⟨rfl, rfl, List.isChain_singleton n⟩

theorem Way.cons {n m : Nat} {path : List Nat} (h : g.Way m target path)
    (hl : g.linked n m = true) : g.Way n target (n :: path) := by
  obtain ⟨hfirst, hlast, hlinked⟩ := h
  cases path with
  | nil => cases hfirst
  | cons a rest =>
      obtain rfl := Option.some.inj hfirst
      exact ⟨rfl, (List.getLast?_cons_cons).trans hlast, List.isChain_cons_cons.2 ⟨hl, hlinked⟩⟩

namespace Explores

variable {ns entered after path : List Nat}

theorem exists_way (h : g.Stored) (he : g.Explores target ns entered (some path) after) :
    ∃ n ∈ ns, g.Way n target path := by
  generalize hfound : some path = found at he
  induction he generalizing path with
  | done => cases hfound
  | arrived =>
      obtain rfl := Option.some.inj hfound
      exact ⟨target, List.mem_cons_self, way_self g target⟩
  | known _ _ _ ih =>
      obtain ⟨n, hn, hway⟩ := ih hfound
      exact ⟨n, List.mem_cons_of_mem _ hn, hway⟩
  | @found n _ _ _ _ _ _ _ ih =>
      obtain rfl := Option.some.inj hfound
      obtain ⟨m, hm, hway⟩ := ih rfl
      exact ⟨n, List.mem_cons_self, hway.cons ((mem_children h).1 hm)⟩
  | left _ _ _ _ _ ih =>
      obtain ⟨n, hn, hway⟩ := ih hfound
      exact ⟨n, List.mem_cons_of_mem _ hn, hway⟩

/-- Nodes on the way that is found have been entered on this way alone, but for the target, which
is not entered at all. -/
theorem nodup (he : g.Explores target ns entered (some path) after) :
    path.Nodup ∧ ∀ n ∈ path, n = target ∨ n ∉ entered := by
  -- The second part carries the first: a node has been entered before what comes below it.
  generalize hfound : some path = found at he
  induction he generalizing path with
  | done => cases hfound
  | arrived =>
      obtain rfl := Option.some.inj hfound
      simp
  | known _ _ _ ih => exact ih hfound
  | @found n _ entered path' _ hne hn _ ih =>
      obtain rfl := Option.some.inj hfound
      obtain ⟨hnodup, hnew⟩ := ih rfl
      refine ⟨List.nodup_cons.2 ⟨fun hmem => ?_, hnodup⟩, ?_⟩
      · rcases hnew n hmem with rfl | hnot
        · exact hne rfl
        · exact hnot List.mem_cons_self
      · intro m hm
        rcases List.mem_cons.1 hm with rfl | hm
        · exact .inr hn
        · exact (hnew m hm).imp id fun hnot hin => hnot (List.mem_cons_of_mem _ hin)
  | left _ _ hbelow _ _ ih =>
      obtain ⟨hnodup, hnew⟩ := ih hfound
      refine ⟨hnodup, fun m hm => (hnew m hm).imp id fun hnot hin => hnot ?_⟩
      exact hbelow.kept m (List.mem_cons_of_mem _ hin)

end Explores

/-! ## No way -/

/-- From the nodes entered anew, links lead only to nodes entered, and the target is not one of
them. -/
structure Exhausted (g : ResolvedGraph) (target : Nat) (before after : List Nat) : Prop where
  kept : ∀ m ∈ before, m ∈ after
  closed : ∀ m ∈ after, m ∉ before → m ≠ target ∧ ∀ k ∈ g.children m, k ∈ after

theorem exhausted_refl (entered : List Nat) : g.Exhausted target entered entered :=
  ⟨fun _ hm => hm, fun _ hm hnew => absurd hm hnew⟩

theorem Exhausted.trans {before between after : List Nat}
    (h₁ : g.Exhausted target before between) (h₂ : g.Exhausted target between after) :
    g.Exhausted target before after := by
  refine ⟨fun m hm => h₂.kept m (h₁.kept m hm), fun m hm hnew => ?_⟩
  by_cases hbetween : m ∈ between
  · obtain ⟨hne, hchildren⟩ := h₁.closed m hbetween hnew
    exact ⟨hne, fun k hk => h₂.kept k (hchildren k hk)⟩
  · exact h₂.closed m hm hbetween

theorem Explores.exhausted {ns entered after : List Nat}
    (he : g.Explores target ns entered none after) :
    g.Exhausted target entered after ∧ ∀ n ∈ ns, n ∈ after := by
  generalize hfound : (none : Option (List Nat)) = found at he
  induction he with
  | done => exact ⟨exhausted_refl _, nofun⟩
  | arrived => cases hfound
  | known _ hn _ ih =>
      obtain ⟨hex, hrest⟩ := ih hfound
      exact ⟨hex, List.forall_mem_cons.2 ⟨hex.kept _ hn, hrest⟩⟩
  | found => cases hfound
  | @left n _ entered between _ _ hne hn hbelow _ ih ih' =>
      obtain ⟨hex, hchildren⟩ := ih rfl
      obtain ⟨hex', hrest⟩ := ih' hfound
      have hbetween : n ∈ between := hex.kept n List.mem_cons_self
      -- The node itself is left for good once its children have been entered.
      have hself : g.Exhausted target entered between := by
        refine ⟨fun m hm => hex.kept m (List.mem_cons_of_mem _ hm), fun m hm hnew => ?_⟩
        by_cases heq : m = n
        · subst heq
          exact ⟨hne, hchildren⟩
        · apply hex.closed m hm
          simp [heq, hnew]
      exact ⟨hself.trans hex', List.forall_mem_cons.2 ⟨hex'.kept n hbetween, hrest⟩⟩

/-- The search from the root finds a way to every node that links reach. -/
theorem exists_way_of_reaches (h : g.Stored)
    (hreaches : Relation.ReflTransGen (fun a b => g.linked a b = true) 0 target) :
    ∃ path, (g.search target (g.size + 2) 0 []).1 = some path ∧ g.Way 0 target path := by
  have hexplores := explores_search h target
  cases hs : (g.search target (g.size + 2) 0 []).1 with
  | some path =>
      rw [hs] at hexplores
      obtain ⟨n, hn, hway⟩ := hexplores.exists_way h
      rw [List.mem_singleton.1 hn] at hway
      exact ⟨path, rfl, hway⟩
  | none =>
      exfalso
      rw [hs] at hexplores
      obtain ⟨hex, hroot⟩ := hexplores.exhausted
      have hall : ∀ m, Relation.ReflTransGen (fun a b => g.linked a b = true) 0 m →
          m ∈ (g.search target (g.size + 2) 0 []).2 := by
        intro m hm
        induction hm with
        | refl => exact hroot 0 List.mem_cons_self
        | tail _ hl ih => exact (hex.closed _ ih List.not_mem_nil).2 _ ((mem_children h).2 hl)
      exact (hex.closed target (hall target hreaches) List.not_mem_nil).1 rfl

end ResolvedGraph

end Lockstep
