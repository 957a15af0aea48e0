import Lockstep.Proofs.Routes
import Lockstep.Resolved.Tree
import Mathlib.Data.Finset.Basic

/-!
# Trees as they are printed

A tree of a resolved graph is printed line by line: each line shows a neighbour of the node above
it, and the neighbours of that one follow, unless it is too deep or stands further up itself. The
printer keeps the nodes that stand further up in a set that it enlarges on its way down and reduces
on its way up (`Prints`). Its course ends whatever the graph, always the same way, with the set it
began with, and its lines are the drawing of the tree (`exists_prints`, `Prints.unique`). Its lines
show what lies beyond the nodes that links lead to, and nothing else (`Prints.mem_entries_iff`); a
greatest depth takes away the lines below it and leaves the others as they are
(`Prints.filter_depth`). Both trees of a graph are of this kind (`trees_grown`).
-/

namespace Lockstep

/-! ## Lines -/

/-- A line of a printed tree. -/
structure Line (α : Type) where
  /-- How far below the first line it stands. -/
  depth : Nat
  /-- The bars of the open branches to its left. -/
  margin : String
  /-- It is the last one of its siblings. -/
  last : Bool
  entry : α

namespace Line

variable {α : Type}

def text (label : α → String) (l : Line α) : String :=
  l.margin ++ (if l.last then "└── " else "├── ") ++ label l.entry ++ "\n"

/-- The margin of the lines below. -/
def inner (l : Line α) : String :=
  l.margin ++ if l.last then "    " else "│   "

end Line

theorem Tree.branches_cons (margin : String) (t : Tree) (rest : List Tree) :
    branches margin (t :: rest) = branch margin rest.isEmpty t ++ branches margin rest := by
  cases rest with
  | nil => simp [branches]
  | cons u rest => simp [branches]

/-! ## Printers -/

/-- What there is to show below each node, the node that each entry leads to, and what is written
for it. -/
structure Unfolding (α : Type) where
  next : Nat → List α
  node : α → Nat
  label : α → String

namespace Unfolding

variable {α : Type} {u : Unfolding α} {maxDepth : Option Nat} {depth n : Nat} {margin : String}
  {entries : List α} {above after : Finset Nat} {lines : List (Line α)}

/-- Nothing is printed below an entry: it is as deep as the greatest depth, or its node stands
further up. -/
def Shut (u : Unfolding α) (maxDepth : Option Nat) (depth : Nat) (above : Finset Nat) (a : α) :
    Prop :=
  (∃ d ∈ maxDepth, d ≤ depth) ∨ u.node a ∈ above

/-- The course of the printer: the depth and margin of the lines, the entries to show, the nodes
that stand further up, the lines printed, and what is left of the set of these nodes. -/
inductive Prints (u : Unfolding α) (maxDepth : Option Nat) :
    Nat → String → List α → Finset Nat → List (Line α) → Finset Nat → Prop
  | done {depth : Nat} {margin : String} {above : Finset Nat} :
      Prints u maxDepth depth margin [] above [] above
  | shut {depth : Nat} {margin : String} {a : α} {rest : List α} {above after : Finset Nat}
      {lines : List (Line α)} (hshut : u.Shut maxDepth depth above a)
      (hrest : Prints u maxDepth depth margin rest above lines after) :
      Prints u maxDepth depth margin (a :: rest) above (⟨depth, margin, rest.isEmpty, a⟩ :: lines)
        after
  | opened {depth : Nat} {margin : String} {a : α} {rest : List α}
      {above between after : Finset Nat} {below lines : List (Line α)}
      (hopen : ¬u.Shut maxDepth depth above a)
      (hbelow : Prints u maxDepth (depth + 1) (Line.inner ⟨depth, margin, rest.isEmpty, a⟩)
        (u.next (u.node a)) (insert (u.node a) above) below between)
      (hrest : Prints u maxDepth depth margin rest (between.erase (u.node a)) lines after) :
      Prints u maxDepth depth margin (a :: rest) above
        (⟨depth, margin, rest.isEmpty, a⟩ :: (below ++ lines)) after

theorem not_mem_of_open {a : α} (h : ¬u.Shut maxDepth depth above a) : u.node a ∉ above :=
  fun ha => h (.inr ha)

namespace Prints

/-- On every way out the set is as it was on the way in. -/
theorem restored (h : u.Prints maxDepth depth margin entries above lines after) :
    after = above := by
  induction h with
  | done => rfl
  | shut _ _ ih => exact ih
  | opened hopen _ _ ih ih' => rw [ih', ih, Finset.erase_insert (not_mem_of_open hopen)]

/-- The printer takes one course. -/
theorem unique (h : u.Prints maxDepth depth margin entries above lines after)
    {lines' : List (Line α)} {after' : Finset Nat}
    (h' : u.Prints maxDepth depth margin entries above lines' after') :
    lines' = lines ∧ after' = after := by
  induction h generalizing lines' after' with
  | done =>
      cases h'
      exact ⟨rfl, rfl⟩
  | shut hshut _ ih =>
      cases h' with
      | shut _ hrest =>
          obtain ⟨rfl, rfl⟩ := ih hrest
          exact ⟨rfl, rfl⟩
      | opened hopen => exact absurd hshut hopen
  | opened hopen _ _ ih ih' =>
      cases h' with
      | shut hshut => exact absurd hshut hopen
      | opened _ hbelow hrest =>
          obtain ⟨rfl, rfl⟩ := ih hbelow
          obtain ⟨rfl, rfl⟩ := ih' hrest
          exact ⟨rfl, rfl⟩

/-! ## Depths -/

theorem le_depth (h : u.Prints maxDepth depth margin entries above lines after) :
    ∀ l ∈ lines, depth ≤ l.depth := by
  induction h with
  | done => exact nofun
  | shut _ _ ih => exact List.forall_mem_cons.2 ⟨Nat.le_refl _, ih⟩
  | opened _ _ _ ih ih' =>
      refine List.forall_mem_cons.2 ⟨Nat.le_refl _, fun l hl => ?_⟩
      rcases List.mem_append.1 hl with hl | hl
      · exact Nat.le_of_succ_le (ih l hl)
      · exact ih' l hl

/-- With a greatest depth the printer leaves out the lines below it, and only these. -/
theorem filter_depth (h : u.Prints none depth margin entries above lines after) {d : Nat}
    (hd : depth ≤ d) :
    u.Prints (some d) depth margin entries above (lines.filter (·.depth ≤ d)) after := by
  induction h with
  | done => exact .done
  | shut hshut _ ih =>
      rw [List.filter_cons_of_pos (by simpa using hd)]
      rcases hshut with ⟨_, hnone, -⟩ | ha
      · cases hnone
      · exact .shut (.inr ha) (ih hd)
  | @opened depth _ a _ above _ _ below _ hopen hbelow _ ih ih' =>
      have ha := not_mem_of_open hopen
      rw [List.filter_cons_of_pos (by simpa using hd), List.filter_append]
      rcases Nat.eq_or_lt_of_le hd with rfl | hless
      · -- The line is as deep as lines may be, and all that stands below it is deeper still.
        have hnone : below.filter (·.depth ≤ depth) = [] := by
          rw [List.filter_eq_nil_iff]
          intro l hl
          have hle := hbelow.le_depth l hl
          simp only [decide_eq_true_eq]
          omega
        have hrest := ih' hd
        rw [hbelow.restored, Finset.erase_insert ha] at hrest
        rw [hnone]
        exact .shut (.inl ⟨depth, rfl, Nat.le_refl _⟩) hrest
      · have hopen' : ¬u.Shut (some d) depth above a := by
          rintro (⟨d', hd', hle⟩ | ha')
          · obtain rfl := Option.some.inj hd'
            omega
          · exact ha ha'
        exact .opened hopen' (ih hless) (ih' hd)

/-! ## Entries -/

/-- What holds of the entries to show, and with an entry of all below it, holds of every line. -/
theorem forall_entry (h : u.Prints maxDepth depth margin entries above lines after) {P : α → Prop}
    (hnext : ∀ a, P a → ∀ b ∈ u.next (u.node a), P b) (hentries : ∀ a ∈ entries, P a) :
    ∀ l ∈ lines, P l.entry := by
  induction h with
  | done => exact nofun
  | shut _ _ ih =>
      rw [List.forall_mem_cons] at hentries
      exact List.forall_mem_cons.2 ⟨hentries.1, ih hentries.2⟩
  | opened _ _ _ ih ih' =>
      rw [List.forall_mem_cons] at hentries
      refine List.forall_mem_cons.2 ⟨hentries.1, fun l hl => ?_⟩
      rcases List.mem_append.1 hl with hl | hl
      · exact ih (hnext _ hentries.1) l hl
      · exact ih' hentries.2 l hl

/-- Each entry to show has a line. -/
theorem subset_entries (h : u.Prints maxDepth depth margin entries above lines after) :
    entries ⊆ lines.map Line.entry := by
  induction h with
  | done => exact List.nil_subset _
  | shut _ _ ih => exact List.cons_subset_cons _ ih
  | opened _ _ _ _ ih' =>
      rw [List.map_cons, List.map_append]
      exact List.cons_subset_cons _ (List.subset_append_of_subset_right _ ih')

end Prints

/-! ## What lies beyond a node -/

/-- Some entry below a node leads to another. -/
def Step (u : Unfolding α) (n m : Nat) : Prop :=
  ∃ a ∈ u.next n, u.node a = m

/-- The same, unless the other is one of some nodes. -/
def StepOutside (u : Unfolding α) (above : Finset Nat) (n m : Nat) : Prop :=
  u.Step n m ∧ m ∉ above

/-- What is reached from a node is the node itself, or is reached from an entry below it without
coming back. -/
theorem eq_or_exists_next {m : Nat} (h : Relation.ReflTransGen (u.StepOutside above) n m) :
    m = n ∨ ∃ a ∈ u.next n, u.node a ∉ insert n above ∧
      Relation.ReflTransGen (u.StepOutside (insert n above)) (u.node a) m := by
  induction h with
  | refl => exact .inl rfl
  | @tail k m _ hstep ih =>
      by_cases hm : m = n
      · exact .inl hm
      · right
        have hout : m ∉ insert n above := by simp [hm, hstep.2]
        rcases ih with rfl | ⟨a, ha, hnew, hreach⟩
        · obtain ⟨a, ha, rfl⟩ := hstep.1
          exact ⟨a, ha, hout, .refl⟩
        · exact ⟨a, ha, hnew, hreach.tail ⟨hstep.1, hout⟩⟩

/-- Whatever lies beyond an entry without a way back to the nodes further up has a line. -/
theorem Prints.subset_entries_beyond
    (h : u.Prints none depth margin entries above lines after) :
    ∀ a ∈ entries, u.node a ∉ above → ∀ m,
      Relation.ReflTransGen (u.StepOutside above) (u.node a) m →
      u.next m ⊆ lines.map Line.entry := by
  induction h with
  | done => exact nofun
  | shut hshut _ ih =>
      refine List.forall_mem_cons.2 ⟨fun hnot => ?_, fun a' ha' hnew m hm => ?_⟩
      · rcases hshut with ⟨_, hnone, -⟩ | ha
        · cases hnone
        · exact absurd ha hnot
      · exact List.subset_cons_of_subset _ (ih a' ha' hnew m hm)
  | @opened _ _ _ _ _ _ _ below _ hopen hbelow _ ih ih' =>
      rw [hbelow.restored, Finset.erase_insert (not_mem_of_open hopen)] at ih'
      rw [List.map_cons, List.map_append]
      refine List.forall_mem_cons.2 ⟨fun _ m hm => ?_, fun a' ha' hnew m hm => ?_⟩
      · -- From its last visit on, the way to what lies beyond an entry keeps away from the entry.
        have hlines : u.next m ⊆ below.map Line.entry := by
          rcases eq_or_exists_next hm with rfl | ⟨c, hc, hnew, hreach⟩
          · exact hbelow.subset_entries
          · exact ih c hc hnew m hreach
        exact List.subset_cons_of_subset _ (List.subset_append_of_subset_left _ hlines)
      · exact List.subset_cons_of_subset _
          (List.subset_append_of_subset_right _ (ih' a' ha' hnew m hm))

/-- From a node on, the printer shows the entries of that node and of every node beyond it, and
nothing else. -/
theorem Prints.mem_entries_iff (h : u.Prints none depth margin (u.next n) {n} lines after) {b : α} :
    b ∈ lines.map Line.entry ↔ ∃ m, Relation.ReflTransGen u.Step n m ∧ b ∈ u.next m := by
  constructor
  · intro hb
    obtain ⟨l, hl, rfl⟩ := List.mem_map.1 hb
    refine h.forall_entry (P := fun b => ∃ m, Relation.ReflTransGen u.Step n m ∧ b ∈ u.next m)
      ?_ (fun a ha => ⟨n, .refl, ha⟩) l hl
    rintro a ⟨m, hm, ha⟩ b hb
    exact ⟨u.node a, hm.tail ⟨a, ha, rfl⟩, hb⟩
  · rintro ⟨m, hm, hb⟩
    have houtside : Relation.ReflTransGen (u.StepOutside ∅) n m :=
      Relation.ReflTransGen.mono (fun _ _ hstep => ⟨hstep, Finset.notMem_empty _⟩) _ _ hm
    rcases eq_or_exists_next houtside with rfl | ⟨a, ha, hnew, hreach⟩
    · exact h.subset_entries hb
    · rw [insert_empty_eq] at hnew hreach
      exact h.subset_entries_beyond a ha hnew m hreach hb

/-! ## Drawings -/

/-- The tree of what lies beyond an entry, as the trees of a resolved graph are made. -/
def tree (u : Unfolding α) (maxDepth : Option Nat) : Nat → Nat → List Nat → α → Tree
  | 0, _, _, a => .node (u.label a) []
  | fuel + 1, depth, path, a =>
    if maxDepth.any (· ≤ depth) || path.contains (u.node a) then .node (u.label a) []
    else .node (u.label a)
      ((u.next (u.node a)).map (u.tree maxDepth fuel (depth + 1) (u.node a :: path)))

section Drawing

variable {path : List Nat} {a : α}

theorem shut_iff : (maxDepth.any (· ≤ depth) || path.contains (u.node a)) = true ↔
    u.Shut maxDepth depth path.toFinset a := by
  unfold Shut
  rw [Bool.or_eq_true, Option.any_eq_true, List.contains_iff_mem, List.mem_toFinset]
  simp only [Option.mem_def, decide_eq_true_eq]

theorem tree_of_shut (h : u.Shut maxDepth depth path.toFinset a) (fuel : Nat) :
    u.tree maxDepth fuel depth path a = .node (u.label a) [] := by
  cases fuel with
  | zero => rfl
  | succ fuel =>
      rw [tree, if_pos (shut_iff.2 h)]

theorem tree_of_open (h : ¬u.Shut maxDepth depth path.toFinset a) (fuel : Nat) :
    u.tree maxDepth (fuel + 1) depth path a = .node (u.label a)
      ((u.next (u.node a)).map (u.tree maxDepth fuel (depth + 1) (u.node a :: path))) := by
  rw [tree, if_neg fun hshut => h (shut_iff.1 hshut)]

/-- As long as the bound exceeds the number of nodes that are not on the path, the printer comes to
an end, and its lines are the drawing. -/
theorem exists_prints {g : ResolvedGraph} (hnext : ∀ n, ∀ a ∈ u.next n, u.node a ≤ g.size)
    (maxDepth : Option Nat) (depth : Nat) (margin : String) {fuel : Nat}
    (hfuel : g.unentered path < fuel) (hentries : ∀ a ∈ entries, u.node a ≤ g.size) :
    ∃ lines, u.Prints maxDepth depth margin entries path.toFinset lines path.toFinset ∧
      Tree.branches margin (entries.map (u.tree maxDepth fuel depth path)) =
        String.join (lines.map (Line.text u.label)) := by
  -- Below an entry the bound falls, and so does the number of nodes off the path; from one entry to
  -- the next both stay.
  induction fuel generalizing depth margin entries path with
  | zero => cases hfuel
  | succ fuel ih =>
      induction entries with
      | nil => exact ⟨[], .done, by simp [Tree.branches]⟩
      | cons a rest ihrest =>
          rw [List.forall_mem_cons] at hentries
          obtain ⟨lines, hrest, hdrawn⟩ := ihrest hentries.2
          rw [List.map_cons, Tree.branches_cons, hdrawn]
          by_cases hshut : u.Shut maxDepth depth path.toFinset a
          · refine ⟨_, .shut hshut hrest, ?_⟩
            rw [tree_of_shut hshut, List.map_cons, String.join_cons]
            simp [Line.text, Tree.branch, Tree.branches]
          · have hless := ResolvedGraph.unentered_cons_lt hentries.1
              fun hin => not_mem_of_open hshut (List.mem_toFinset.2 hin)
            obtain ⟨below, hbelow, hdrawn'⟩ := ih (depth + 1)
              (Line.inner ⟨depth, margin, rest.isEmpty, a⟩) (Nat.lt_of_lt_of_le hless
                (Nat.le_of_lt_succ hfuel)) (hnext (u.node a))
            rw [List.toFinset_cons] at hbelow
            have hrest' : u.Prints maxDepth depth margin rest
                ((insert (u.node a) path.toFinset).erase (u.node a)) lines path.toFinset := by
              rw [Finset.erase_insert (not_mem_of_open hshut)]
              exact hrest
            refine ⟨_, .opened hshut hbelow hrest', ?_⟩
            rw [tree_of_open hshut, List.map_cons, String.join_cons, List.map_append,
              String.join_append, ← hdrawn']
            simp [Line.text, Line.inner, Tree.branch, String.append_assoc]

end Drawing

/-- What is printed below a node as a tree: the lines of the one course that the printer takes,
which ends with the nodes it began with, are the drawing. -/
structure Printed (u : Unfolding α) (maxDepth : Option Nat) (n : Nat) (first : String) (t : Tree)
    (lines : List (Line α)) : Prop where
  course : u.Prints maxDepth 1 "" (u.next n) {n} lines {n}
  only : ∀ lines' after, u.Prints maxDepth 1 "" (u.next n) {n} lines' after →
    lines' = lines ∧ after = {n}
  drawn : t.draw = first ++ "\n" ++ String.join (lines.map (Line.text u.label))

theorem exists_printed {g : ResolvedGraph} (hnext : ∀ n, ∀ a ∈ u.next n, u.node a ≤ g.size)
    {fuel : Nat} (hfuel : g.unentered [n] < fuel) (first : String) :
    ∃ lines, u.Printed maxDepth n first
      (.node first ((u.next n).map (u.tree maxDepth fuel 1 [n]))) lines := by
  obtain ⟨lines, hcourse, hdrawn⟩ := u.exists_prints hnext maxDepth 1 "" hfuel (hnext n)
  exact ⟨lines, hcourse, fun _ _ h => hcourse.unique h, by rw [← hdrawn]; rfl⟩

/-- A greatest depth takes away the lines below it. -/
theorem Printed.filter_depth {first : String} {t t' : Tree} {lines' : List (Line α)}
    (h : u.Printed none n first t lines) {d : Nat} (hd : 1 ≤ d)
    (h' : u.Printed (some d) n first t' lines') : lines' = lines.filter (·.depth ≤ d) :=
  (h'.only _ _ (h.course.filter_depth hd)).1.symm

end Unfolding

namespace ResolvedGraph

variable {g : ResolvedGraph}

/-! ## Dependencies -/

/-- A link as the tree of dependencies shows it: its ends, and the report that it stands for. -/
structure Shown where
  source : Nat
  target : Nat
  report : EdgeReport

/-- What the tree of dependencies shows below each node. -/
def outward (g : ResolvedGraph) : Unfolding Shown where
  next n := (g.dependencies n).map fun (m, r) => ⟨n, m, r⟩
  node := Shown.target
  label s := s.report.label

/-- A line shows a link. -/
def Shown.StandsFor (s : Shown) (g : ResolvedGraph) (l : Link) : Prop :=
  s.source = l.source ∧ s.target = l.target ∧ g.reports[l.report]? = some s.report

theorem mem_next_outward {n : Nat} {s : Shown} :
    s ∈ g.outward.next n ↔ s.source = n ∧ ∃ l ∈ g.links, s.StandsFor g l := by
  obtain ⟨source, target, r⟩ := s
  unfold outward dependencies Shown.StandsFor
  simp only [List.mem_map, sortBy_eq, List.mem_insertionSort, List.mem_filterMap, List.mem_filter,
    beq_iff_eq, Option.map_eq_some_iff]
  constructor
  · rintro ⟨_, ⟨l, ⟨hl, rfl⟩, r', hr', rfl⟩, heq⟩
    cases heq
    exact ⟨rfl, l, hl, rfl, rfl, hr'⟩
  · rintro ⟨rfl, l, hl, rfl, rfl, hr⟩
    exact ⟨(l.target, r), ⟨l, ⟨hl, rfl⟩, r, hr, rfl⟩, rfl⟩

theorem step_outward_iff (h : g.Stored) {n m : Nat} :
    g.outward.Step n m ↔ g.linked n m = true := by
  rw [← mem_children h]
  unfold Unfolding.Step outward children
  simp only [List.mem_map, exists_exists_and_eq_and]

theorem outward_target_le (h : g.Stored) (n : Nat) {s : Shown} (hs : s ∈ g.outward.next n) :
    s.target ≤ g.size :=
  child_le h ((mem_children h).2 ((step_outward_iff h).1 ⟨s, hs, rfl⟩))

theorem subtree_eq (g : ResolvedGraph) (maxDepth : Option Nat) (fuel depth : Nat) (path : List Nat)
    (s : Shown) : g.subtree maxDepth fuel depth path s.target s.report.label =
      g.outward.tree maxDepth fuel depth path s := by
  induction fuel generalizing depth path s with
  | zero => rfl
  | succ fuel ih =>
      unfold subtree Unfolding.tree
      show (if maxDepth.any (· ≤ depth) || path.contains s.target then Tree.node _ _
        else Tree.node _ _) = if maxDepth.any (· ≤ depth) || path.contains s.target then
          Tree.node _ _ else Tree.node _ _
      split
      · rfl
      · congr 1
        show _ = ((g.dependencies s.target).map _).map _
        rw [List.map_map]
        exact List.map_congr_left fun x _ => ih (depth + 1) (s.target :: path) ⟨s.target, x.1, x.2⟩

/-! ## Dependents -/

/-- What the tree of dependents shows below each node. -/
def inward (g : ResolvedGraph) : Unfolding Nat where
  next := g.dependents
  node := id
  label n := (g.coordinates n).text

theorem mem_dependents {n m : Nat} : m ∈ g.dependents n ↔ g.linked m n = true := by
  unfold dependents linked
  rw [sortBy_eq, List.mem_insertionSort, List.any_eq_true]
  simp only [List.map_reverse, List.mem_reverse, List.mem_map, List.mem_filter, Bool.and_eq_true,
    beq_iff_eq]
  constructor
  · rintro ⟨l, ⟨hl, htarget⟩, hsource⟩
    exact ⟨l, hl, hsource, htarget⟩
  · rintro ⟨l, hl, hsource, htarget⟩
    exact ⟨l, ⟨hl, htarget⟩, hsource⟩

theorem dependent_le (h : g.Stored) {n m : Nat} (hm : m ∈ g.dependents n) : m ≤ g.size := by
  obtain ⟨l, hl, hends⟩ := List.any_eq_true.1 (mem_dependents.1 hm)
  rw [Bool.and_eq_true, beq_iff_eq, beq_iff_eq] at hends
  obtain ⟨r, -, -, hsource, -⟩ := h.link l hl
  rw [← hends.1]
  unfold sourceNode? at hsource
  split at hsource
  · rw [← Option.some.inj hsource]
    exact Nat.zero_le _
  · exact (h.number_le hsource).2

theorem invertedSubtree_eq (g : ResolvedGraph) (fuel depth : Nat) (path : List Nat) (n : Nat) :
    g.invertedSubtree fuel path n = g.inward.tree none fuel depth path n := by
  induction fuel generalizing depth path n with
  | zero => rfl
  | succ fuel ih =>
      unfold invertedSubtree Unfolding.tree
      show Tree.node _ _ = if path.contains n = true then Tree.node _ _ else Tree.node _ _
      split
      · rfl
      · congr 1
        exact List.map_congr_left fun m _ => ih (depth + 1) (n :: path) m

theorem unentered_singleton_lt {n : Nat} (hn : n ≤ g.size) : g.unentered [n] < g.size + 1 := by
  have hless := unentered_cons_lt hn List.not_mem_nil
  have hnil : g.unentered [] = g.size + 1 := by simp [unentered]
  omega

theorem exists_printed_tree (h : g.Stored) (maxDepth : Option Nat) :
    ∃ lines, g.outward.Printed maxDepth 0 g.root.text (g.tree maxDepth) lines := by
  have htree : g.tree maxDepth = .node g.root.text
      ((g.outward.next 0).map (g.outward.tree maxDepth (g.size + 1) 1 [0])) := by
    unfold tree outward
    rw [List.map_map]
    congr 1
    exact List.map_congr_left fun x _ => g.subtree_eq maxDepth (g.size + 1) 1 [0] ⟨0, x.1, x.2⟩
  rw [htree]
  exact g.outward.exists_printed (fun n _ ha => outward_target_le h n ha)
    (unentered_singleton_lt (Nat.zero_le _)) g.root.text

/-- The tree of dependencies shows the links whose source is reached from the root, and no
others. -/
theorem exists_line_standsFor_iff (h : g.Stored) {t : Tree} {first : String}
    {lines : List (Line Shown)} (ht : g.outward.Printed none 0 first t lines) {l : Link}
    (hl : l ∈ g.links) : (∃ line ∈ lines, line.entry.StandsFor g l) ↔
      Relation.ReflTransGen (fun a b => g.linked a b = true) 0 l.source := by
  have hsteps : g.outward.Step = fun a b => g.linked a b = true := by
    funext a b
    exact propext (step_outward_iff h)
  rw [← hsteps]
  constructor
  · rintro ⟨line, hline, hsource, -⟩
    obtain ⟨n, hn, hentry⟩ := ht.course.mem_entries_iff.1 (List.mem_map_of_mem hline)
    rwa [← hsource, (mem_next_outward.1 hentry).1]
  · intro hreach
    obtain ⟨r, hr, -⟩ := h.link l hl
    have hstands : Shown.StandsFor ⟨l.source, l.target, r⟩ g l := ⟨rfl, rfl, hr⟩
    obtain ⟨line, hline, hentry⟩ := List.mem_map.1 (ht.course.mem_entries_iff.2
      ⟨l.source, hreach, mem_next_outward.2 ⟨rfl, l, hl, hstands⟩⟩)
    exact ⟨line, hline, hentry ▸ hstands⟩

theorem exists_printed_invertedTree (h : g.Stored) {n : Nat} (hn : n ≤ g.size) :
    ∃ lines, g.inward.Printed none n (g.coordinates n).text (g.invertedSubtree (g.size + 2) [] n)
      lines := by
  have htree : g.invertedSubtree (g.size + 2) [] n = .node (g.coordinates n).text
      ((g.inward.next n).map (g.inward.tree none (g.size + 1) 1 [n])) := by
    rw [g.invertedSubtree_eq _ 0]
    exact Unfolding.tree_of_open (by simp [Unfolding.Shut]) _
  rw [htree]
  exact g.inward.exists_printed (fun _ _ hm => dependent_le h hm) (unentered_singleton_lt hn) _

/-- The tree of the dependents of a node shows the nodes from which it is reached, and no others. -/
theorem eq_or_mem_entries_iff {n k : Nat} {first : String} {t : Tree} {lines : List (Line Nat)}
    (ht : g.inward.Printed none n first t lines) : (k = n ∨ k ∈ lines.map Line.entry) ↔
      Relation.ReflTransGen (fun a b => g.linked a b = true) k n := by
  have hsteps : g.inward.Step = Function.swap fun a b => g.linked a b = true := by
    funext a b
    refine propext ((?_ : g.inward.Step a b ↔ b ∈ g.dependents a).trans mem_dependents)
    exact ⟨fun ⟨_, hb, heq⟩ => heq ▸ hb, fun hb => ⟨b, hb, rfl⟩⟩
  rw [← Relation.reflTransGen_swap, ← hsteps, ht.course.mem_entries_iff,
    Relation.ReflTransGen.cases_tail_iff]
  refine or_congr_right (exists_congr fun m => and_congr_right fun _ => ?_)
  exact ⟨fun hk => ⟨k, hk, rfl⟩, fun ⟨_, hk, heq⟩ => heq ▸ hk⟩

/-! ## Both trees -/

/-- Whatever has been added to a graph, the printer of its tree takes one course and comes to an
end. Without a greatest depth it shows links, and among these just the ones whose source is reached
from the root; with one, it shows the same lines without those that are deeper. A key that names a
module has a tree of dependents, and the printer comes to an end there as well and shows just the
nodes from which links lead to the module. -/
theorem trees_grown (root : Coordinates) (additions : List Addition) :
    let g := grown root additions
    (∀ maxDepth, ∃ lines, g.outward.Printed maxDepth 0 g.root.text (g.tree maxDepth) lines) ∧
    (∀ lines, g.outward.Printed none 0 g.root.text (g.tree none) lines →
      (∀ line ∈ lines, ∃ l ∈ g.links, line.entry.StandsFor g l) ∧
      (∀ l ∈ g.links, (∃ line ∈ lines, line.entry.StandsFor g l) ↔
        Relation.ReflTransGen (fun a b => g.linked a b = true) 0 l.source) ∧
      ∀ d, 1 ≤ d → g.outward.Printed (some d) 0 g.root.text (g.tree (some d))
        (lines.filter (·.depth ≤ d))) ∧
    ∀ key, (g.invertedTree? key = none ↔ ¬∃ m, g.Names key m) ∧
      ∀ m n, g.Names key m → g.numbers.get? m.id = some n → ∃ t lines,
        g.invertedTree? key = some t ∧ g.inward.Printed none n m.coordinates.text t lines ∧
        ∀ k, (k = n ∨ k ∈ lines.map Line.entry) ↔
          Relation.ReflTransGen (fun a b => g.linked a b = true) k n := by
  intro g
  have h : g.Stored := stored_grown root additions
  refine ⟨exists_printed_tree h, fun lines ht => ⟨?links, ?complete, ?depths⟩,
    fun key => ⟨?unnamed, ?named⟩⟩
  case links =>
    intro line hline
    obtain ⟨n, -, hentry⟩ := ht.course.mem_entries_iff.1 (List.mem_map_of_mem hline)
    exact (mem_next_outward.1 hentry).2
  case complete => exact fun l hl => exists_line_standsFor_iff h ht hl
  case depths =>
    intro d hd
    obtain ⟨lines', ht'⟩ := exists_printed_tree h (some d)
    exact ht.filter_depth hd ht' ▸ ht'
  case unnamed =>
    rw [invertedTree?, Option.map_eq_none_iff, Option.eq_none_iff_forall_ne_some]
    simp only [ne_eq, node?_eq_some_iff h]
    constructor
    · rintro hnone ⟨m, hnames⟩
      obtain ⟨i, hi, -⟩ := h.mem_modules.1 hnames.mem_modules
      exact hnone (i + 1) ⟨m, hnames, hi⟩
    · rintro hnone n ⟨m, hnames, -⟩
      exact hnone ⟨m, hnames⟩
  case named =>
    intro m n hnames hn
    obtain ⟨m', hm', hid, hcoordinates⟩ := h.exists_mem_modules hn
    obtain rfl := h.eq_of_mem_modules hm' hnames.mem_modules hid
    obtain ⟨lines, ht⟩ := exists_printed_invertedTree h (h.number_le hn).2
    rw [hcoordinates] at ht
    refine ⟨_, lines, ?_, ht, fun k => eq_or_mem_entries_iff ht⟩
    rw [invertedTree?, (node?_eq_some_iff h).2 ⟨_, hnames, hn⟩]
    rfl

end ResolvedGraph

/-- What stands further up is shown and not followed. -/
theorem ResolvedGraph.trees_over_circle :
    (Sample.circle.tree none).draw = "org:app:1\n├── org:auth:1\n│   └── org:base:1\n" ++
      "│       └── org:auth:1\n└── org:core:1\n" ∧
    (∃ lines, Sample.circle.outward.Printed none 0 Sample.circle.root.text
        (Sample.circle.tree none) lines ∧
      (∃ line ∈ lines, line.entry.StandsFor Sample.circle ⟨2, 1, 2⟩) ∧
      Sample.circle.outward.Printed (some 1) 0 Sample.circle.root.text
        (Sample.circle.tree (some 1)) (lines.filter (·.depth ≤ 1))) ∧
    ∃ m t lines, Sample.circle.Names "base" m ∧ Sample.circle.numbers.get? m.id = some 2 ∧
      Sample.circle.invertedTree? "base" = some t ∧
      Sample.circle.inward.Printed none 2 m.coordinates.text t lines ∧
      0 ∈ lines.map Line.entry := by
  have hdraw : (Sample.circle.tree none).draw = "org:app:1\n├── org:auth:1\n│   └── org:base:1\n" ++
      "│       └── org:auth:1\n└── org:core:1\n" := by
    decide
  have hreach : Relation.ReflTransGen (fun a b => Sample.circle.linked a b = true) 0 2 :=
    .head (b := 1) (by decide) (.single (by decide))
  have hnode : Sample.circle.node? "base" = some 2 := by decide
  obtain ⟨m, hnames, hn⟩ := (node?_eq_some_iff (stored_grown _ Sample.circling)).1 hnode
  obtain ⟨hprinted, hlines, htrees⟩ :=
    trees_grown (Sample.member "app").coordinates Sample.circling
  obtain ⟨lines, hcourse⟩ := hprinted none
  obtain ⟨-, hcomplete, hdepths⟩ := hlines lines hcourse
  obtain ⟨t, lines', ht, hcourse', hentries⟩ := (htrees "base").2 m 2 hnames hn
  refine ⟨hdraw, ⟨lines, hcourse, (hcomplete ⟨2, 1, 2⟩ (by decide)).2 hreach,
    hdepths 1 (Nat.le_refl 1)⟩, m, t, lines', hnames, hn, ht, hcourse', ?_⟩
  exact ((hentries 0).2 hreach).resolve_left (by decide)

end Lockstep
