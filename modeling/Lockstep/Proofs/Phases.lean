import Lockstep.Proofs.Ending
import Lockstep.Proofs.Noting
import Mathlib.Logic.Relation

/-!
# The phases of a build

A build goes from level to level. In a level it first waits for its lookups,
whose answers come in in any order, and then processes its arrivals one after
the other (`Phase.Moves`). What each of these moves keeps (`Task.onCourse_moves`)
holds at every moment of a build, so its graph is in order at every moment
(`Task.Course.orderly`). A build also remembers what it has processed: whatever the
exclusions in force let through has been processed or is awaited (`Due`), and
at the end nothing is awaited any more.
-/

namespace Lockstep

namespace Builder

/-! ## Phases -/

/-- Where a build stands. What has been processed so far is the past. -/
inductive Phase where
  /-- Between two levels; the next one is in the queue. -/
  | between (b : Builder) (past : List Arrival)
  /-- In a level, with the queries that have not been answered and the arrivals to come. -/
  | level (b : Builder) (wanted : List Query) (todo past : List Arrival)

namespace Phase

def builder : Phase → Builder
  | between b _ => b
  | level b _ _ _ => b

def past : Phase → List Arrival
  | between _ past => past
  | level _ _ _ past => past

/-- The phase in which a build begins. -/
def opening (root : Coordinates) (dependencies : List Dependency)
    (constraints : SortedSet Constraint) : Phase :=
  between (start root dependencies constraints) []

/-- Nothing is left to do. -/
def Over : Phase → Prop
  | between b _ => b.queue = []
  | level _ _ _ _ => False

/-- One move of a build. Arrivals are processed once all queries have been answered. -/
inductive Moves (p : Provider) (rules : PlatformRules) : Phase → Phase → Prop
  | begin {b : Builder} {past : List Arrival} (hbusy : b.queue ≠ []) :
      Moves p rules (between b past)
        (level { b with queue := [] } b.wanted.toList b.queue past)
  | answer {b : Builder} {q : Query} {wanted rest : List Query} {todo past : List Arrival}
      (hwanted : wanted.Perm (q :: rest)) :
      Moves p rules (level b wanted todo past) (level (b.record q (p q)) rest todo past)
  | arrive {b : Builder} {a : Arrival} {todo past : List Arrival} :
      Moves p rules (level b [] (a :: todo) past)
        (level (b.process rules a) [] todo (past ++ [a]))
  | close {b : Builder} {past : List Arrival} :
      Moves p rules (level b [] [] past) (between b.probes past)

/-- A build comes from one phase to another. -/
abbrev Leads (p : Provider) (rules : PlatformRules) : Phase → Phase → Prop :=
  Relation.ReflTransGen (Moves p rules)

/-! ### Levels are made of moves -/

section Levels

variable (p : Provider) (rules : PlatformRules)

theorem leads_answers (wanted : List Query) (todo past : List Arrival) (b : Builder) :
    Leads p rules (level b wanted todo past) (level (b.recordAll p wanted) [] todo past) := by
  induction wanted generalizing b with
  | nil => exact .refl
  | cons q rest ih => exact .head (.answer (.refl _)) (ih (b.record q (p q)))

theorem leads_arrivals (todo past : List Arrival) (b : Builder) :
    Leads p rules (level b [] todo past)
      (level (todo.foldl (process rules) b) [] [] (past ++ todo)) := by
  induction todo generalizing b past with
  | nil =>
      rw [List.append_nil]
      exact .refl
  | cons a rest ih =>
      have hrest := ih (past ++ [a]) (b.process rules a)
      rw [List.append_assoc] at hrest
      exact .head .arrive hrest

/-- A level leads from one queue to the next. -/
theorem leads_levelWith {b : Builder} (hbusy : b.queue ≠ []) (past : List Arrival) :
    Leads p rules (between b past) (between (b.levelWith rules p) (past ++ b.queue)) := by
  rw [levelWith_eq]
  apply Relation.ReflTransGen.head (.begin hbusy)
  apply (leads_answers p rules _ _ _ _).trans
  exact (leads_arrivals p rules _ _ _).tail .close

theorem after_succ (levels : Nat) (b : Builder) :
    b.after p rules (levels + 1) = (b.after p rules levels).levelWith rules p := by
  unfold after
  rw [Function.iterate_succ_apply']
  exact congrArg Prod.fst (Task.level_lookup ⟨p, rules, b.graph.root, [], ∅⟩ _ ())

/-- As long as there is something to do, a build goes from level to level. -/
theorem exists_leads_after {b : Builder} {levels : Nat}
    (hbusy : ∀ k < levels, (b.after p rules k).queue ≠ []) :
    ∃ past, Leads p rules (between b []) (between (b.after p rules levels) past) := by
  induction levels with
  | zero => exact ⟨[], .refl⟩
  | succ levels ih =>
      obtain ⟨past, hbefore⟩ := ih fun k hk => hbusy k (Nat.lt_succ_of_lt hk)
      rw [after_succ]
      exact ⟨_, hbefore.trans (leads_levelWith p rules (hbusy levels (Nat.lt_succ_self _)) past)⟩

end Levels

end Phase

/-! ## Arrivals that are due -/

/-- Whatever the exclusions in force let through has been processed or is awaited. -/
def Due (past todo : List Arrival) (b : Builder) : Prop :=
  ∀ c ∈ b.expanded, ∀ set, b.exclusions.get? c.id = some set →
    ∀ a ∈ arrivals b.graph set c, a ∈ past ∨ Awaits todo b a

/-- Arrivals go by the dependencies that the edges of a version stand for. -/
theorem arrivals_congr {g g' : CandidateGraph} {c : Coordinates}
    (hout : g'.outgoing c = g.outgoing c)
    (hedges : ∀ e ∈ g.outgoing c,
      (g'.edge? e).map Edge.dependency = (g.edge? e).map Edge.dependency) (set : Exclusions) :
    arrivals g' set c = arrivals g set c := by
  unfold arrivals Walk.onward
  rw [hout]
  congr 1
  refine List.filterMap_congr fun e he => ?_
  have hedge := hedges e he
  cases hg : g.edge? e with
  | none =>
      rw [hg] at hedge
      rw [Option.map_eq_none_iff.1 hedge]
  | some edge =>
      rw [hg] at hedge
      obtain ⟨edge', hg', hdependency⟩ := Option.map_eq_some_iff.1 hedge
      rw [hg']
      show (if set.exclude edge'.dependency.target = true then none
        else some (e, set.union edge'.dependency.exclusions)) = _
      rw [hdependency]
      rfl

section Due

variable {rules : PlatformRules} {dependencies : List (Dependency × Bool)} {b : Builder}
  {past todo rest : List Arrival} {declared : List Query}

theorem due_revisit (harena : b.graph.Arena rules dependencies b.expanded)
    (h : Due past todo b) (e : EdgeId) (edge : Edge) (incoming : Exclusions) :
    Due past todo (b.revisit e edge incoming) := by
  intro c hc set hset a ha
  by_cases hagain : c ∈ b.again edge.target incoming
  · -- The edges of a version that is gone through again have just been queued.
    rw [get?_exclusions_revisit, if_pos ((mem_again harena.coordinates).1 hagain).2.1] at hset
    obtain rfl := Option.some.inj hset
    exact Or.inr (Or.inr (List.mem_append_right _ (List.mem_flatMap.2 ⟨c, hagain, ha⟩)))
  · have hold := get?_exclusions_of_not_mem_again harena hc hagain hset
    have hout : (b.revisit e edge incoming).graph.outgoing c = b.graph.outgoing c := rfl
    have hsame : arrivals (b.revisit e edge incoming).graph set c = arrivals b.graph set c := by
      apply arrivals_congr hout
      intro e' _
      show Option.map _ ((b.graph.setResolved e _).edge? e') = _
      rw [CandidateGraph.edge?_setResolved]
      split
      · rw [Option.map_map]
        rfl
      · rfl
    rw [hsame] at ha
    exact (h c hc set hold a ha).imp_right fun hawaits => hawaits.imp_right mem_queue_revisit

theorem due_expandNew (harena : b.graph.Arena rules dependencies b.expanded)
    (h : Due past todo b) {c : Coordinates} {set : Exclusions}
    (hset : b.exclusions.get? c.id = some set) (hnew : c ∉ b.expanded) :
    Due past todo (b.expandNew rules c) := by
  rw [expandNew_eq hnew hset]
  intro c' hc' set' hset' a ha
  by_cases heq : c' = c
  · subst heq
    obtain rfl := Option.some.inj (hset.symm.trans hset')
    exact Or.inr (Or.inr (List.mem_append_right _ ha))
  · have hsame : arrivals (b.graph.withEdgesOf rules c) set' c' = arrivals b.graph set' c' := by
      apply arrivals_congr
      · rw [CandidateGraph.outgoing_withEdgesOf rules (harena.unexpanded c hnew), if_neg heq]
      · intro e he
        obtain ⟨edge, hedge, -⟩ := harena.source_of_mem_outgoing he
        rw [CandidateGraph.edge?_withEdgesOf_of_edge? hedge, hedge]
    rw [hsame] at ha
    have hold := h c' ((SortedSet.mem_insert.1 hc').resolve_left heq) set' hset' a ha
    exact hold.imp_right fun hawaits => hawaits.imp_right (List.mem_append_left _)

theorem due_expandAnswer (harena : b.graph.Arena rules dependencies b.expanded)
    (h : Due past todo b) {q : Query} (hreached : ∃ set, b.exclusions.get? q.target = some set) :
    Due past todo (b.expandAnswer rules q) := by
  obtain ⟨set, hset⟩ := hreached
  rcases expandAnswer_eq_or rules b q with ⟨heq, -⟩ | ⟨v, -, hnew, heq⟩
  · rw [heq]
    exact h
  · rw [heq]
    exact due_expandNew harena h hset hnew

theorem Due.drop {a : Arrival} (h : Due past (a :: rest) b) : Due (past ++ [a]) rest b := by
  intro c hc set hset a' ha'
  rcases h c hc set hset a' ha' with hpast | hmem | hmem
  · exact Or.inl (List.mem_append_left _ hpast)
  · rcases List.mem_cons.1 hmem with rfl | hmem
    · exact Or.inl (List.mem_append_right _ List.mem_cons_self)
    · exact Or.inr (Or.inl hmem)
  · exact Or.inr (Or.inr hmem)

/-- Once it has been processed, an arrival is past. -/
theorem due_process (harena : b.graph.Arena rules dependencies b.expanded) {a : Arrival}
    (howed : Owed declared (a :: rest) b) (h : Due past (a :: rest) b) :
    Due (past ++ [a]) rest (b.process rules a) := by
  apply Due.drop
  cases a with
  | probe q =>
      rw [process_probe]
      exact due_expandAnswer harena h (howed.probes q (Or.inl List.mem_cons_self))
  | edge e incoming =>
      obtain ⟨edge, hedge⟩ := howed.exists_edge
      rw [process_edge harena.coordinates hedge]
      have hshared := get?_exclusions_revisit_target b e edge incoming
      apply due_expandAnswer (harena.setResolved e _) (due_revisit harena h e edge incoming)
      exact ⟨_, hshared⟩

theorem due_record (h : Due past todo b) (q : Query) (answer : Answer) :
    Due past todo (b.record q answer) := by
  intro c hc set hset a ha
  have hsame : arrivals (b.record q answer).graph set c = arrivals b.graph set c := by
    apply arrivals_congr (CandidateGraph.outgoing_record b.graph q answer c)
    intro e _
    exact congrArg _ (CandidateGraph.edge?_record b.graph q answer e)
  rw [hsame] at ha
  exact h c hc set hset a ha

theorem due_probes (h : Due past todo b) : Due past todo b.probes := by
  obtain ⟨new, heq, -, -⟩ := probes_eq b
  rw [heq]
  intro c hc set hset a ha
  exact (h c hc set hset a ha).imp_right fun hawaits => (awaits_append_iff rfl).2 (Or.inl hawaits)

theorem due_begin (h : Due past [] b) : Due past b.queue { b with queue := [] } := by
  intro c hc set hset a ha
  exact (h c hc set hset a ha).imp_right awaits_begin_iff.2

end Due

end Builder

/-! ## What every phase has in common -/

namespace Task

open Builder

/-- A build is on course: its graph is an arena, whatever it owes is awaited, what it has recorded
is what the provider says, and the queries of its arrivals have been answered or are about to be. -/
structure Course (t : Task) (past : List Arrival) (wanted : List Query) (todo : List Arrival)
    (b : Builder) : Prop where
  arena : b.graph.Arena t.rules (rootRequests t.root t.dependencies) b.expanded
  owed : Owed t.declared todo b
  within : t.Within everything todo b
  anchored : b.Anchored
  due : Due past todo b
  nodup : wanted.Nodup
  unanswered : ∀ q ∈ wanted, b.graph.outcome? q = none ∧ ∃ a ∈ todo, b.query? a = some q
  asked : ∀ a ∈ todo, ∀ q, b.query? a = some q → q ∈ wanted ∨ ∃ o, b.graph.outcome? q = some o

/-- Between two levels nothing of a level is left. -/
def OnCourse (t : Task) : Phase → Prop
  | .between b past => t.Course past [] [] b
  | .level b wanted todo past => t.Course past wanted todo b

variable {t : Task} {b : Builder} {past todo : List Arrival} {wanted rest : List Query}

theorem course_start (t : Task) : t.Course [] [] [] t.start where
  arena := arena_start t.rules t.root t.dependencies t.constraints
  owed := (tidy_start t.rules t.root t.dependencies t.constraints).owed
  within := within_start t.closed_everything
  anchored := anchored_start t.root t.dependencies t.constraints
  due := fun c hc => absurd hc (SortedSet.not_mem_empty c)
  nodup := List.nodup_nil
  unanswered := nofun
  asked := nofun

theorem Course.begin (h : t.Course past [] [] b) :
    t.Course past b.wanted.toList b.queue { b with queue := [] } where
  arena := h.arena
  owed := owed_begin h.owed
  within := h.within.begin
  anchored := h.anchored
  due := due_begin h.due
  nodup := b.wanted.nodup_toList
  unanswered := by
    intro q hq
    obtain ⟨hnew, a, ha, hqa⟩ := mem_wanted.1 hq
    refine ⟨hnew, a, ha, ?_⟩
    cases a <;> exact hqa
  asked := by
    intro a ha q hq
    have hqa : b.query? a = some q := by cases a <;> exact hq
    by_cases hnew : b.graph.outcome? q = none
    · exact Or.inl (mem_wanted.2 ⟨hnew, a, ha, hqa⟩)
    · exact Or.inr (Option.ne_none_iff_exists'.1 hnew)

theorem Course.record (h : t.Course past wanted todo b) {q : Query}
    (hwanted : wanted.Perm (q :: rest)) :
    t.Course past rest todo (b.record q (t.provider q)) := by
  obtain ⟨hnew, hmem⟩ := h.unanswered q (hwanted.mem_iff.2 List.mem_cons_self)
  obtain ⟨hq, hnodup⟩ := List.nodup_cons.1 (hwanted.nodup_iff.1 h.nodup)
  have houtcome := CandidateGraph.outcome?_record b.graph q (t.provider q)
  constructor
  case arena => exact h.arena.record (t.provider q) hnew
  case owed => exact owed_record h.arena h.owed hmem hnew (t.provider q)
  case within =>
    obtain ⟨a, ha, hqa⟩ := hmem
    exact within_record h.within ⟨a, Or.inl ha, hqa⟩
  case anchored =>
    exact fun id set hset => (leads_record b q _ id).trans (h.anchored id set hset)
  case due => exact due_record h.due q (t.provider q)
  case nodup => exact hnodup
  case unanswered =>
    intro q' hq'
    obtain ⟨hnew', a, ha, hqa⟩ := h.unanswered q' (hwanted.mem_iff.2 (List.mem_cons_of_mem q hq'))
    have hne : q' ≠ q := ne_of_mem_of_not_mem hq' hq
    refine ⟨(houtcome q').trans ((if_neg hne).trans hnew'), a, ha, ?_⟩
    rw [query?_record]
    exact hqa
  case asked =>
    intro a ha q' hq'
    rw [query?_record] at hq'
    -- The query that is no longer wanted has an outcome now.
    by_cases heq : q' = q
    · exact Or.inr ⟨_, (houtcome q').trans (if_pos heq)⟩
    · rcases h.asked a ha q' hq' with hmem' | ⟨o, ho⟩
      · exact Or.inl ((List.mem_cons.1 (hwanted.mem_iff.1 hmem')).resolve_left heq)
      · exact Or.inr ⟨o, (houtcome q').trans ((if_neg heq).trans ho)⟩

theorem Course.process {a : Arrival} (h : t.Course past [] (a :: todo) b) :
    t.Course (past ++ [a]) [] todo (b.process t.rules a) := by
  have hasked : Asked (a :: todo) b := fun a' ha' q hq =>
    (h.asked a' ha' q hq).resolve_left List.not_mem_nil
  obtain ⟨howed, hasked'⟩ := owed_process h.arena h.owed hasked
  constructor
  case arena => exact arena_process h.arena a
  case owed => exact howed
  case within => exact within_process t.closed_everything h.arena h.owed h.within
  case anchored => exact anchored_process h.arena.coordinates h.anchored a
  case due => exact due_process h.arena h.owed h.due
  case nodup => exact List.nodup_nil
  case unanswered => exact nofun
  case asked => exact fun a' ha' q hq => Or.inr (hasked' a' ha' q hq)

theorem Course.close (h : t.Course past [] [] b) : t.Course past [] [] b.probes := by
  constructor
  case arena =>
    rw [graph_probes, expanded_probes]
    exact h.arena
  case owed => exact (owed_probes h.owed).1
  case within => exact within_probes h.within
  case anchored => exact anchored_probes h.anchored
  case due => exact due_probes h.due
  case nodup => exact List.nodup_nil
  case unanswered => exact nofun
  case asked => exact nofun

/-- Every move of a build keeps it on course. -/
theorem onCourse_moves {m m' : Phase} (h : t.OnCourse m)
    (hmoves : Phase.Moves t.provider t.rules m m') : t.OnCourse m' := by
  cases hmoves with
  | begin _ => exact Course.begin h
  | answer hwanted => exact Course.record h hwanted
  | arrive => exact Course.process h
  | close => exact Course.close h

/-- So a build is on course at every moment. -/
theorem onCourse_of_leads {m m' : Phase} (h : t.OnCourse m)
    (hleads : Phase.Leads t.provider t.rules m m') : t.OnCourse m' := by
  induction hleads with
  | refl => exact h
  | tail _ hmoves ih => exact onCourse_moves ih hmoves

theorem OnCourse.course {m : Phase} (h : t.OnCourse m) :
    ∃ wanted todo, t.Course m.past wanted todo m.builder := by
  cases m with
  | between b past => exact ⟨[], [], h⟩
  | level b wanted todo past => exact ⟨wanted, todo, h⟩

/-! ## The graph of a build on course -/

/-- No version of the root is ever expanded, because no edge leads to the root. -/
theorem Course.id_ne_root (h : t.Course past wanted todo b) {c : Coordinates}
    (hc : c ∈ b.expanded) : c.id ≠ b.graph.root.id := by
  obtain ⟨set, hset⟩ := h.owed.reached c hc
  obtain ⟨e, edge, hedge, htarget⟩ := CandidateGraph.leads_iff.1 (h.anchored c.id set hset)
  rw [← htarget]
  exact h.arena.target e edge hedge

theorem Course.orderly {catalog : Catalog} (h : t.Course past wanted todo b)
    (hsupplies : catalog.Supplies t.provider) : b.graph.Orderly t.rules b.expanded := by
  apply h.arena.orderly
  case hdeclared =>
    intro r hr
    obtain ⟨dep, -, rfl⟩ := List.mem_map.1 hr
    rfl
  case hroot => exact fun c hc => h.id_ne_root hc
  case htells =>
    intro c d hd
    have hf := CandidateGraph.descriptor?_eq_some_iff.1 hd
    exact (hsupplies c d (h.within.findings c _ hf)).2

end Task

namespace Builder

/-- Every node has been expanded, and whatever the exclusions in force let through has been
processed: the query of the edge has been made, and the edge knows the answer. -/
structure Phase.Complete (m : Phase) : Prop where
  expanded : ∀ c n, m.builder.graph.node? c = some n → c ∈ m.builder.expanded
  followed : ∀ c n, m.builder.graph.node? c = some n →
    ∃ set, m.builder.exclusions.get? c.id = some set ∧
      ∀ e ∈ n.outgoing, ∀ edge, m.builder.graph.edge? e = some edge →
        set.exclude edge.target = false →
          .edge e (set.union edge.dependency.exclusions) ∈ m.past ∧
            (∃ o, m.builder.graph.outcome? edge.query = some o) ∧
              edge.resolved = m.builder.graph.answer? edge.query

theorem complete_of_course {t : Task} {past : List Arrival} {b : Builder}
    (h : t.Course past [] [] b) (hdone : b.queue = []) : (Phase.between b past).Complete := by
  have hnothing : ∀ a, ¬Awaits [] b a := by
    rintro a (ha | ha)
    · exact List.not_mem_nil ha
    · rw [hdone] at ha
      exact List.not_mem_nil ha
  have hexpanded : ∀ c n, b.graph.node? c = some n → c ∈ b.expanded := by
    intro c n hn
    have hf : b.graph.finding? c = some n.finding :=
      CandidateGraph.finding?_eq_some_iff.2 ⟨n, hn, rfl⟩
    rcases h.owed.recorded c _ hf with hc | ⟨a, ha, -⟩
    · exact hc
    · cases ha
  refine ⟨hexpanded, fun c n hn => ?_⟩
  have hc := hexpanded c n hn
  obtain ⟨set, hset⟩ := h.owed.reached c hc
  refine ⟨set, hset, fun e he edge hedge hex => ?_⟩
  rw [← CandidateGraph.outgoing_of_node? hn] at he
  have hpast : .edge e (set.union edge.dependency.exclusions) ∈ past :=
    (h.due c hc set hset _ (mem_arrivals.2 ⟨e, edge, he, hedge, hex, rfl⟩)).resolve_right
      (hnothing _)
  have hfollowed := (h.owed.onward c hc set hset e he edge hedge hex).resolve_left (hnothing _)
  exact ⟨hpast, hfollowed.asked, hfollowed.resolved⟩

/-- Over a catalog, the graph of a build is in order at every moment, in whatever order answers
come in; when a build is over, it is complete; and a run comes to the graph of a build that is
over. -/
theorem orderly_throughout (catalog : Catalog) (order : VersionOrder) (rules : PlatformRules)
    (root : Coordinates) (dependencies : List Dependency) (constraints : SortedSet Constraint) :
    (∀ m, Phase.Leads (catalog.provider order) rules (.opening root dependencies constraints) m →
      m.builder.graph.root = root ∧ m.builder.graph.Orderly rules m.builder.expanded ∧
        (m.Over → m.Complete)) ∧
    ∃ n past, Phase.Leads (catalog.provider order) rules (.opening root dependencies constraints)
        (.between ((start root dependencies constraints).after (catalog.provider order) rules n)
          past) ∧
      ((start root dependencies constraints).after (catalog.provider order) rules n).queue = [] ∧
      ∀ levels, (((start root dependencies constraints).run (catalog.provider order).lookup rules
          levels).run ()).1 =
        if n ≤ levels then
          some ((start root dependencies constraints).after (catalog.provider order) rules n).graph
        else none := by
  let t : Task := ⟨catalog.provider order, rules, root, dependencies, constraints⟩
  have hprovider : t.provider = catalog.provider order := rfl
  constructor
  · intro m hleads
    have hcourse : t.OnCourse m :=
      Task.onCourse_of_leads (m := .opening root dependencies constraints) t.course_start hleads
    obtain ⟨wanted, todo, h⟩ := hcourse.course
    refine ⟨h.within.root, h.orderly (catalog.supplies_provider order), fun hover => ?_⟩
    cases m with
    | between b past => exact complete_of_course hcourse hover
    | level b wanted todo past => exact absurd hover id
  · obtain ⟨g, hg⟩ := Task.exists_run_of_reach hprovider ()
    obtain ⟨n, -, hdone, hbusy⟩ := exists_after_of_run (catalog.provider order) rules
      (start root dependencies constraints) (congrArg Prod.fst hg)
    obtain ⟨past, hleads⟩ := Phase.exists_leads_after (catalog.provider order) rules hbusy
    exact ⟨n, past, hleads, hdone, run_eq_of_after _ _ _ hdone hbusy⟩

/-- The edge of `auth` to `core` is excluded at first. It is followed when `base` leads to `auth`
again, and is not created a second time. -/
theorem orderly_over_reopening : ∃ m,
    Phase.Leads (Sample.reopening.provider Version.segmentOrder) []
      (.opening Sample.root Sample.reopened ∅) m ∧
    m.Over ∧ m.builder.graph.Orderly [] m.builder.expanded ∧ m.Complete ∧
    (m.builder.graph.edges.toList.map fun e => (e.source.id.name, e.target.name, e.resolved)) =
      [("app", "auth", some "1"), ("app", "base", some "1"), ("auth", "core", some "1"),
        ("base", "auth", some "1")] := by
  obtain ⟨hevery, n, past, hleads, hdone, hrun⟩ :=
    orderly_throughout Sample.reopening Version.segmentOrder [] Sample.root Sample.reopened ∅
  have hedges : (((start Sample.root Sample.reopened ∅).run
      (Sample.reopening.provider Version.segmentOrder).lookup [] 4).run ()).1.map (fun g =>
        g.edges.toList.map fun e => (e.source.id.name, e.target.name, e.resolved)) =
      some [("app", "auth", some "1"), ("app", "base", some "1"), ("auth", "core", some "1"),
        ("base", "auth", some "1")] := by
    decide +kernel
  obtain ⟨-, horderly, hcomplete⟩ := hevery _ hleads
  refine ⟨_, hleads, hdone, horderly, hcomplete hdone, ?_⟩
  rw [hrun] at hedges
  split at hedges
  · exact Option.some.inj hedges
  · cases hedges

end Builder

end Lockstep
