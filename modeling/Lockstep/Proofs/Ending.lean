import Lockstep.Proofs.Levels
import Lockstep.Proofs.Listing
import Lockstep.Proofs.Supply
import Lockstep.Run

/-!
# Builds over a catalog end

A catalog mentions finitely many queries and exclusions, and so does a request.
They are a budget for every build, so the queue of a builder is empty after
finitely many levels (`Builder.exists_queue_eq_nil`), and the levels that a run
allows itself suffice (`Run.exists_finished`).
-/

namespace Lockstep

/-! ## What a catalog supplies -/

namespace Catalog

/-- What the provider finds is in the catalog. -/
def Supplies (catalog : Catalog) (p : Provider) : Prop :=
  ∀ c d, p.Tells c (.found d) → d ∈ catalog.modules ∧ d.coordinates = c

theorem supplies_provider (catalog : Catalog) (order : VersionOrder) :
    catalog.Supplies (catalog.provider order) :=
  fun _ _ => mem_of_tells

end Catalog

namespace Builder

/-- A version depends on what its metadata asks for, and on platforms at its own version. -/
theorem mem_outgoingOf {rules : PlatformRules} {root c : Coordinates} {d : Descriptor}
    {r : Dependency × Bool} (h : r ∈ outgoingOf rules root c d) :
    (r.1 ∈ d.dependencies ∧ r.1.target ≠ c.id ∧ r.2 = false) ∨
      ∃ p, (p ∈ d.belongsTo.map Membership.platform ∨ p ∈ rules.map PlatformRule.platform) ∧
        r = ({ target := p, requirement := .exact c.version, category := some .platform },
          true) := by
  unfold outgoingOf at h
  rcases List.mem_append.1 h with h | h
  · obtain ⟨dep, hdep, rfl⟩ := List.mem_map.1 h
    obtain ⟨hdep, hne⟩ := List.mem_filter.1 hdep
    rw [Bool.and_eq_true, bne_iff_ne] at hne
    exact Or.inl ⟨hdep, hne.1, rfl⟩
  · obtain ⟨p, hp, rfl⟩ := List.mem_map.1 h
    refine Or.inr ⟨p, ?_, rfl⟩
    rcases (mem_publishedPlatforms.1 hp).joined with ⟨rule, hrule, -, -, rfl⟩ | ⟨m, hm, -, rfl⟩
    · exact Or.inr (List.mem_map_of_mem hrule)
    · exact Or.inl (List.mem_map_of_mem hm)

end Builder

/-! ## The budget -/

namespace Task

variable {catalog : Catalog} {order : VersionOrder} {t : Task}

/-- Every query that a task over a catalog can give rise to. -/
def queries (t : Task) (catalog : Catalog) : SortedSet Query :=
  .ofList (catalog.modules.flatMap (Catalog.queriesOf t.rules) ++
    t.dependencies.map (fun d => ⟨d.target, d.requirement⟩) ++ t.declared)

/-- Every exclusion that a task over a catalog can bring up. -/
def exclusions (t : Task) (catalog : Catalog) : Exclusions :=
  .ofList (catalog.modules.flatMap Catalog.exclusionsOf ++
    t.dependencies.flatMap (·.exclusions.toList))

theorem budget (h : catalog.Supplies t.provider) :
    t.Budget (t.queries catalog) (t.exclusions catalog) := by
  have hqueries : ∀ d ∈ catalog.modules, ∀ q ∈ Catalog.queriesOf t.rules d,
      q ∈ t.queries catalog := by
    intro d hd q hq
    exact SortedSet.mem_ofList.2 (List.mem_append_left _ (List.mem_append_left _
      (List.mem_flatMap.2 ⟨d, hd, hq⟩)))
  constructor
  case root =>
    intro d hd _
    refine ⟨SortedSet.mem_ofList.2 (List.mem_append_left _ (List.mem_append_right _
      (List.mem_map.2 ⟨d, hd, rfl⟩))), fun a ha => SortedSet.mem_ofList.2 ?_⟩
    exact List.mem_append_right _ (List.mem_flatMap.2 ⟨d, hd, ha⟩)
  case onward =>
    rintro c r ⟨d, htells, hr⟩
    obtain ⟨hd, rfl⟩ := h c d htells
    rcases Builder.mem_outgoingOf hr with ⟨hdep, -, -⟩ | ⟨p, hp, rfl⟩
    · refine ⟨hqueries d hd _ (List.mem_append_left _ (List.mem_append_left _
        (List.mem_map.2 ⟨r.1, hdep, rfl⟩))), fun a ha => SortedSet.mem_ofList.2 ?_⟩
      exact List.mem_append_left _ (List.mem_flatMap.2 ⟨d, hd, List.mem_flatMap.2 ⟨r.1, hdep, ha⟩⟩)
    · refine ⟨hqueries d hd _ (List.mem_append_right _ (List.mem_map.2
        ⟨p, List.mem_append.2 hp, rfl⟩)), fun a ha => absurd ha (SortedSet.not_mem_empty a)⟩
  case constrained =>
    rintro q (hq | ⟨c, d, htells, k, hk, rfl⟩)
    · exact SortedSet.mem_ofList.2 (List.mem_append_right _ hq)
    · obtain ⟨hd, -⟩ := h c d htells
      exact hqueries d hd _ (List.mem_append_left _ (List.mem_append_right _
        (List.mem_map.2 ⟨k, hk, rfl⟩)))

theorem size_queries_le (t : Task) (catalog : Catalog) : (t.queries catalog).size ≤
    (catalog.reach t.rules).queries + t.dependencies.length + t.constraints.size := by
  refine (SortedSet.size_ofList_le _).trans (Nat.le_of_eq ?_)
  have hdeclared : t.declared.length = t.constraints.size := List.length_map _
  rw [List.length_append, List.length_append, List.length_map, hdeclared]
  rfl

theorem size_exclusions_le (t : Task) (catalog : Catalog) :
    SortedSet.size (t.exclusions catalog) ≤ (catalog.reach t.rules).exclusions +
      (t.dependencies.flatMap (·.exclusions.toList)).length := by
  refine (SortedSet.size_ofList_le _).trans (Nat.le_of_eq ?_)
  rw [List.length_append]
  rfl

/-- The levels that the reach of a catalog allows suffice. -/
theorem exists_run_of_supplies (h : catalog.Supplies t.provider) (s : Unit) :
    ∃ g, (t.start.run t.provider.lookup t.rules
      ((catalog.reach t.rules).levels t.dependencies t.constraints)).run s = (some g, s) := by
  refine exists_run_eq (budget h) ?_ s
  have hqueries := size_queries_le t catalog
  have hexclusions := size_exclusions_le t catalog
  have hmul := Nat.mul_le_mul hqueries (Nat.add_le_add_right hexclusions 4)
  have hless : (t.queries catalog).size * (SortedSet.size (t.exclusions catalog) + 3) ≤
      (t.queries catalog).size * (SortedSet.size (t.exclusions catalog) + 4) :=
    Nat.mul_le_mul_left _ (Nat.le_succ _)
  unfold Reach.levels
  dsimp only
  omega

theorem exists_run_of_reach (h : t.provider = catalog.provider order) (s : Unit) :
    ∃ g, (t.start.run t.provider.lookup t.rules
      ((catalog.reach t.rules).levels t.dependencies t.constraints)).run s = (some g, s) :=
  exists_run_of_supplies (h ▸ catalog.supplies_provider order) s

end Task

/-! ## The levels of a build -/

namespace Builder

/-- The builder after so many levels. -/
def after (p : Provider) (rules : PlatformRules) (levels : Nat) (b : Builder) : Builder :=
  (fun b => ((b.level p.lookup rules).run ()).1)^[levels] b

variable (p : Provider) (rules : PlatformRules) (b : Builder)

@[simp] theorem after_zero : b.after p rules 0 = b := rfl

theorem run_succ_of_queue (levels : Nat) (h : b.queue ≠ []) :
    (b.run p.lookup rules (levels + 1)).run () =
      ((b.after p rules 1).run p.lookup rules levels).run () :=
  run_succ p.lookup rules levels () (by simpa using h)

/-- A run is over with the first level that leaves nothing to do. -/
theorem run_eq_of_after {n : Nat} (hdone : (b.after p rules n).queue = [])
    (hbusy : ∀ k < n, (b.after p rules k).queue ≠ []) (levels : Nat) :
    ((b.run p.lookup rules levels).run ()).1 =
      if n ≤ levels then some (b.after p rules n).graph else none := by
  induction levels generalizing b n with
  | zero =>
      cases n with
      | zero =>
          rw [after_zero] at hdone
          rw [run_of_isEmpty _ _ _ _ (by simp [hdone])]
          simp
      | succ n =>
          rw [run_zero _ _ _ (by simpa using hbusy 0 (Nat.succ_pos n))]
          simp
  | succ levels ih =>
      cases n with
      | zero =>
          rw [after_zero] at hdone
          rw [run_of_isEmpty _ _ _ _ (by simp [hdone])]
          simp
      | succ n =>
          rw [run_succ_of_queue p rules b levels (hbusy 0 (Nat.succ_pos n)),
            ih (b.after p rules 1) hdone fun k hk => hbusy (k + 1) (Nat.succ_lt_succ hk)]
          simp only [Nat.succ_le_succ_iff]
          rfl

/-- If a run comes to a graph, some level has left nothing to do. -/
theorem exists_after_of_run {levels : Nat} {g : CandidateGraph}
    (h : ((b.run p.lookup rules levels).run ()).1 = some g) :
    ∃ n ≤ levels, (b.after p rules n).queue = [] ∧ ∀ k < n, (b.after p rules k).queue ≠ [] := by
  induction levels generalizing b with
  | zero =>
      refine ⟨0, Nat.le_refl 0, ?_, fun k hk => absurd hk (Nat.not_lt_zero k)⟩
      by_contra hbusy
      rw [run_zero _ _ _ (by simpa using hbusy)] at h
      simp at h
  | succ levels ih =>
      by_cases hbusy : b.queue = []
      · exact ⟨0, Nat.zero_le _, hbusy, fun k hk => absurd hk (Nat.not_lt_zero k)⟩
      · rw [run_succ_of_queue p rules b levels hbusy] at h
        obtain ⟨n, hn, hdone, hbefore⟩ := ih (b.after p rules 1) h
        refine ⟨n + 1, Nat.succ_le_succ hn, hdone, fun k hk => ?_⟩
        cases k with
        | zero => exact hbusy
        | succ k => exact hbefore k (Nat.lt_of_succ_lt_succ hk)

/-- Over a catalog, the queue is empty after a number of levels that the catalog bounds. -/
theorem exists_queue_eq_nil (catalog : Catalog) (order : VersionOrder) (rules : PlatformRules)
    (root : Coordinates) (dependencies : List Dependency) (constraints : SortedSet Constraint) :
    ∃ n ≤ (catalog.reach rules).levels dependencies constraints,
      ((start root dependencies constraints).after (catalog.provider order) rules n).queue = [] ∧
      (∀ k < n,
        ((start root dependencies constraints).after (catalog.provider order) rules k).queue ≠ []) ∧
      ∀ levels, (((start root dependencies constraints).run (catalog.provider order).lookup rules
          levels).run ()).1 =
        if n ≤ levels then
          some ((start root dependencies constraints).after (catalog.provider order) rules n).graph
        else none := by
  let t : Task := ⟨catalog.provider order, rules, root, dependencies, constraints⟩
  have hprovider : t.provider = catalog.provider order := rfl
  obtain ⟨g, hg⟩ := Task.exists_run_of_reach hprovider ()
  obtain ⟨n, hn, hdone, hbusy⟩ := exists_after_of_run (catalog.provider order) rules
    (start root dependencies constraints) (congrArg Prod.fst hg)
  exact ⟨n, hn, hdone, hbusy, run_eq_of_after _ _ _ hdone hbusy⟩

end Builder

/-! ## Passes -/

namespace Run

/-- The task of a pass. -/
def task (r : Run) (p : Provider) (constraints : SortedSet Constraint) : Task :=
  ⟨p, r.rules, r.root, r.dependencies, constraints⟩

/-- The candidate graph of a pass over a catalog is that of a finished builder. -/
theorem exists_finished {r : Run} {catalog : Catalog} (order : VersionOrder)
    (hreach : r.reach = catalog.reach r.rules) (constraints : SortedSet Constraint) (s : Unit) :
    ∃ b, (r.task (catalog.provider order) constraints).Finished b ∧
      (r.build (catalog.provider order).lookup constraints).run s = (some b.graph, s) := by
  obtain ⟨g, hg⟩ := Task.exists_run_of_reach (t := r.task (catalog.provider order) constraints)
    rfl s
  obtain ⟨b, hb, rfl⟩ := Task.finished_of_run hg
  refine ⟨b, hb, ?_⟩
  unfold build
  rw [hreach]
  exact hg

end Run

end Lockstep
