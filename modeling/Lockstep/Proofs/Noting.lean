import Lockstep.Proofs.Coverage
import Lockstep.Proofs.Passes

/-!
# What a builder has noted

A builder notes the constraints that it meets, and probes for those on modules
that it has reached. It does nothing else with them (`Notes`), and it reaches
modules along edges (`Anchored`). So whatever has been noted of a module that no
edge leads to, the build asks for the same and comes to the same (`run_alike`).
-/

namespace Lockstep

/-! ## Where edges lead -/

namespace CandidateGraph

/-- Some edge leads to a module. -/
def leads (g : CandidateGraph) (id : ModuleId) : Bool :=
  g.edges.any fun edge => edge.target == id

theorem leads_iff {g : CandidateGraph} {id : ModuleId} :
    g.leads id = true ↔ ∃ e edge, g.edge? e = some edge ∧ edge.target = id := by
  unfold leads edge?
  rw [Array.any_eq_true]
  constructor
  · rintro ⟨e, he, htarget⟩
    exact ⟨e, g.edges[e], Array.getElem?_eq_getElem he, eq_of_beq htarget⟩
  · rintro ⟨e, edge, hedge, rfl⟩
    obtain ⟨he, rfl⟩ := Array.getElem?_eq_some_iff.1 hedge
    exact ⟨e, he, beq_self_eq_true _⟩

theorem KeepsEdges.leads {g g' : CandidateGraph} (h : g.KeepsEdges g') {id : ModuleId}
    (hid : g.leads id = true) : g'.leads id = true := by
  obtain ⟨e, edge, hedge, rfl⟩ := leads_iff.1 hid
  obtain ⟨version, hkept⟩ := h e edge hedge
  exact leads_iff.2 ⟨e, _, hkept, rfl⟩

end CandidateGraph

namespace Builder

variable {rules : PlatformRules}

/-! ## Notes of constraints -/

/-- All that is done to the constraints noted is to note more of them. -/
def Notes (f : Builder → Builder) : Prop :=
  ∀ b, ∃ more, ∀ noted, f { b with constrained := noted } =
    { f b with constrained := noted ++ more }

theorem notes_of_eq {f : Builder → Builder}
    (h : ∀ b noted, f { b with constrained := noted } = { f b with constrained := noted }) :
    Notes f :=
  fun b => ⟨[], fun noted => by rw [h, List.append_nil]⟩

theorem Notes.comp {f h : Builder → Builder} (hh : Notes h) (hf : Notes f) :
    Notes fun b => h (f b) := by
  intro b
  obtain ⟨first, hfirst⟩ := hf b
  obtain ⟨second, hsecond⟩ := hh (f b)
  refine ⟨first ++ second, fun noted => ?_⟩
  dsimp only
  rw [hfirst, hsecond, List.append_assoc]

theorem Notes.ite {p : Builder → Bool} {f h : Builder → Builder}
    (hp : ∀ b noted, p { b with constrained := noted } = p b) (hf : Notes f) (hh : Notes h) :
    Notes fun b => if p b = true then f b else h b := by
  intro b
  by_cases hb : p b = true
  · obtain ⟨more, hmore⟩ := hf b
    refine ⟨more, fun noted => ?_⟩
    dsimp only
    rw [if_pos hb, if_pos ((hp b noted).trans hb), hmore]
  · obtain ⟨more, hmore⟩ := hh b
    refine ⟨more, fun noted => ?_⟩
    dsimp only
    rw [if_neg hb, if_neg fun h => hb ((hp b noted).symm.trans h), hmore]

theorem notes_foldl {α : Type} {f : Builder → α → Builder} (h : ∀ a, Notes fun b => f b a)
    (l : List α) : Notes fun b => l.foldl f b := by
  induction l with
  | nil => exact notes_of_eq fun _ _ => rfl
  | cons a rest ih => exact ih.comp (h a)

theorem notes_queueOutgoing (c : Coordinates) : Notes fun b => b.queueOutgoing c := by
  refine notes_of_eq fun b noted => ?_
  unfold queueOutgoing
  dsimp only
  cases b.exclusions.get? c.id <;> rfl

variable (rules : PlatformRules)

theorem notes_createEdges (c : Coordinates) : Notes fun b => createEdges rules b c := by
  intro b
  refine ⟨b.graph.constraintsOf c, fun noted => ?_⟩
  dsimp only
  rw [createEdges_eq, createEdges_eq]

theorem notes_expand (c : Coordinates) : Notes fun b => expand rules b c := by
  have hmark : Notes fun b => { b with expanded := b.expanded.insert c } :=
    notes_of_eq fun _ _ => rfl
  exact Notes.ite (p := fun b => b.expanded.contains c) (fun _ _ => rfl) (notes_queueOutgoing c)
    (((notes_queueOutgoing c).comp (notes_createEdges rules c)).comp hmark)

theorem notes_expandNew (c : Coordinates) : Notes fun b => expandNew rules b c :=
  Notes.ite (p := fun b => b.expanded.contains c) (fun _ _ => rfl) (notes_of_eq fun _ _ => rfl)
    (notes_expand rules c)

/-- The version that answers a query is expanded, if there is one. -/
theorem notes_answer (target : ModuleId) (version : Option String) :
    Notes fun b => match version with
      | some v => b.expandNew rules (target.atVersion v)
      | none => b := by
  cases version with
  | none => exact notes_of_eq fun _ _ => rfl
  | some v => exact notes_expandNew rules _

theorem notes_process (a : Arrival) : Notes fun b => process rules b a := by
  have hrevisit (graph : CandidateGraph) (exclusions : SortedMap ModuleId Exclusions)
      (again : List Coordinates) :
      Notes fun b => again.foldl (expand rules) { b with graph, exclusions } :=
    (notes_foldl (notes_expand rules) again).comp
      (notes_of_eq (f := fun b => { b with graph, exclusions }) fun _ _ => rfl)
  intro b
  cases a with
  | probe q => exact notes_answer rules q.target (b.graph.answer? q) b
  | edge e incoming =>
      unfold process
      dsimp only
      cases b.graph.edge? e with
      | none => exact ⟨[], fun noted => by rw [List.append_nil]⟩
      | some edge =>
          simp only [offer_eq, decide_eq_true_eq]
          exact (notes_answer rules edge.target (b.graph.answer? edge.query)).comp
            (hrevisit (b.graph.setResolved e (b.graph.answer? edge.query))
              (b.exclusions.insert edge.target (.shared (b.exclusions.get? edge.target) incoming))
              (b.again edge.target incoming)) b

/-! ## Builders that differ in what they have noted -/

/-- The queries for all modules but one are the same. -/
def SameBut (absent : ModuleId) (l l' : List Query) : Prop :=
  l.filter (·.target != absent) = l'.filter (·.target != absent)

/-- Two builders have noted the same constraints but for those on one module, and are otherwise
the same. -/
def Alike (absent : ModuleId) (b b' : Builder) : Prop :=
  ∃ noted, b' = { b with constrained := noted } ∧ SameBut absent b.constrained noted

variable {rules} {absent : ModuleId} {b b' : Builder}

theorem exclusions_probe (b : Builder) (q : Query) : (b.probe q).exclusions = b.exclusions := by
  unfold probe
  split <;> rfl

theorem foldl_probe_noted (qs noted : List Query) (b : Builder) :
    qs.foldl probe { b with constrained := noted } =
      { qs.foldl probe b with constrained := noted } := by
  induction qs generalizing b with
  | nil => rfl
  | cons q rest ih =>
      have hone : probe { b with constrained := noted } q =
          { b.probe q with constrained := noted } := by
        unfold probe
        dsimp only
        split <;> rfl
      rw [List.foldl_cons, List.foldl_cons, hone, ih]

/-- No probe is due for a module that has not been reached. -/
theorem foldl_probe_filter (qs : List Query) (h : b.exclusions.contains absent = false) :
    (qs.filter (·.target != absent)).foldl probe b = qs.foldl probe b := by
  induction qs generalizing b with
  | nil => rfl
  | cons q rest ih =>
      by_cases hq : q.target = absent
      · have hprobe : b.probe q = b := by
          unfold probe
          rw [hq, h]
          rfl
        rw [List.filter_cons_of_neg (by simp [hq]), List.foldl_cons, hprobe, ih h]
      · rw [List.filter_cons_of_pos (by simp [hq]), List.foldl_cons, List.foldl_cons,
          ih (by rw [exclusions_probe]; exact h)]

theorem Alike.probes (h : Alike absent b b') (habsent : b.exclusions.contains absent = false) :
    Alike absent b.probes b'.probes := by
  obtain ⟨noted, rfl, hsame⟩ := h
  obtain ⟨new, heq, -⟩ := probes_eq b
  have hconstrained : b.probes.constrained = b.constrained := by rw [heq]
  refine ⟨noted, ?_, by rw [hconstrained]; exact hsame⟩
  rw [probes_eq_foldl, probes_eq_foldl, foldl_probe_noted]
  dsimp only
  rw [← foldl_probe_filter noted habsent, ← hsame, foldl_probe_filter b.constrained habsent]

theorem Notes.alike {f : Builder → Builder} (hf : Notes f) (h : Alike absent b b') :
    Alike absent (f b) (f b') := by
  obtain ⟨noted, rfl, hsame⟩ := h
  obtain ⟨more, hmore⟩ := hf b
  have hconstrained : (f b).constrained = b.constrained ++ more :=
    congrArg Builder.constrained (hmore b.constrained)
  refine ⟨noted ++ more, hmore noted, ?_⟩
  unfold SameBut at hsame ⊢
  rw [hconstrained, List.filter_append, List.filter_append, hsame]

theorem exclusions_advance (rules : PlatformRules) (b : Builder) :
    (b.advance rules).exclusions =
      (b.queue.foldl (process rules) { b with queue := [] }).exclusions :=
  exclusions_probes _

theorem Alike.advance (h : Alike absent b b')
    (habsent : (b.advance rules).exclusions.contains absent = false) :
    Alike absent (b.advance rules) (b'.advance rules) := by
  rw [exclusions_advance] at habsent
  have hqueue : b'.queue = b.queue := by
    obtain ⟨noted, rfl, -⟩ := h
    rfl
  have hbegin : Notes fun b => { b with queue := [] } := notes_of_eq fun _ _ => rfl
  have hdone := ((notes_foldl (notes_process rules) b.queue).comp hbegin).alike h
  have hprobes := hdone.probes habsent
  unfold Builder.advance
  rw [hqueue]
  exact hprobes

theorem lookUp_noted {σ : Type} (lookup : Lookup σ) (qs noted : List Query) (b : Builder) (s : σ) :
    (lookUp lookup qs { b with constrained := noted }).run s =
      ({ ((lookUp lookup qs b).run s).1 with constrained := noted },
        ((lookUp lookup qs b).run s).2) := by
  induction qs generalizing b s with
  | nil => rfl
  | cons q rest ih => exact ih (b.record q ((lookup q).run s).1) ((lookup q).run s).2

/-- Alike builders ask for the same, and are alike again as long as the module has not been
reached. -/
theorem Alike.level {σ : Type} (h : Alike absent b b') (lookup : Lookup σ) (s : σ)
    (habsent : ((b.level lookup rules).run s).1.exclusions.contains absent = false) :
    ((b'.level lookup rules).run s).2 = ((b.level lookup rules).run s).2 ∧
      Alike absent ((b.level lookup rules).run s).1 ((b'.level lookup rules).run s).1 := by
  obtain ⟨noted, rfl, hsame⟩ := h
  have hwanted : ({ b with constrained := noted } : Builder).wanted = b.wanted := rfl
  have hkept := congrArg (·.1.constrained) (lookUp_noted lookup b.wanted.toList b.constrained b s)
  have hlooked : Alike absent ((lookUp lookup b.wanted.toList b).run s).1
      { ((lookUp lookup b.wanted.toList b).run s).1 with constrained := noted } := by
    refine ⟨noted, rfl, ?_⟩
    rw [hkept]
    exact hsame
  rw [level_eq] at habsent
  rw [level_eq, level_eq, hwanted, lookUp_noted]
  exact ⟨rfl, hlooked.advance habsent⟩

/-! ## Modules reached -/

/-- A module is reached along edges. -/
def Anchored (b : Builder) : Prop :=
  ∀ id set, b.exclusions.get? id = some set → b.graph.leads id = true

theorem keepsEdges_expandAnswer (q : Query) :
    b.graph.KeepsEdges (b.expandAnswer rules q).graph :=
  CandidateGraph.keepsEdges_of_eq fun e edge => edge?_expandAnswer rules q e edge

theorem keepsEdges_process (hg : b.graph.KeepsCoordinates) (a : Arrival) :
    b.graph.KeepsEdges (b.process rules a).graph := by
  cases a with
  | probe q => exact keepsEdges_expandAnswer q
  | edge e incoming =>
      cases hedge : b.graph.edge? e with
      | none =>
          rw [process_edge_none hedge]
          exact CandidateGraph.keepsEdges_of_eq fun _ _ h => h
      | some edge =>
          rw [process_edge hg hedge]
          intro e' edge' hedge'
          obtain ⟨version, hrevisited⟩ :=
            CandidateGraph.keepsEdges_setResolved b.graph e (b.graph.answer? edge.query) e' edge'
              hedge'
          exact ⟨version, edge?_expandAnswer rules edge.query e' _ hrevisited⟩

theorem anchored_process (hg : b.graph.KeepsCoordinates) (h : b.Anchored) (a : Arrival) :
    (b.process rules a).Anchored := by
  intro id set hset
  cases a with
  | probe q =>
      rw [process_probe, exclusions_expandAnswer] at hset
      exact (keepsEdges_expandAnswer q).leads (h id set hset)
  | edge e incoming =>
      refine (keepsEdges_process hg _).leads ?_
      cases hedge : b.graph.edge? e with
      | none =>
          rw [process_edge_none hedge] at hset
          exact h id set hset
      | some edge =>
          rw [process_edge hg hedge, exclusions_expandAnswer, get?_exclusions_revisit] at hset
          split at hset
          · next hid => exact CandidateGraph.leads_iff.2 ⟨e, edge, hedge, hid.symm⟩
          · exact h id set hset

variable {dependencies : List (Dependency × Bool)} {declared : List Query}

theorem leads_record (b : Builder) (q : Query) (answer : Answer) (id : ModuleId) :
    (b.record q answer).graph.leads id = b.graph.leads id := by
  unfold record CandidateGraph.leads
  rw [CandidateGraph.edges_record]

/-- Where edges lead once, they lead for the rest of the build. -/
theorem leads_levelWith (answers : Query → Answer) (h : Tidy rules dependencies declared b)
    {id : ModuleId} (hid : b.graph.leads id = true) :
    (b.levelWith rules answers).graph.leads id = true :=
  (levelWith_induction answers (Q := fun _ b' => b'.graph.leads id = true)
    (fun b' q _ _ hb' => (leads_record b' q _ id).trans hb')
    (fun a _ _ harena _ _ hb' => (keepsEdges_process harena.coordinates a).leads hb')
    (fun b' hb' => (graph_probes b').symm ▸ hb') h hid).2

theorem anchored_probes (h : b.Anchored) : b.probes.Anchored := by
  intro id set hset
  rw [exclusions_probes] at hset
  rw [graph_probes]
  exact h id set hset

theorem anchored_levelWith (answers : Query → Answer) (h : Tidy rules dependencies declared b)
    (hanchored : b.Anchored) : (b.levelWith rules answers).Anchored :=
  (levelWith_induction answers (Q := fun _ b' => b'.Anchored)
    (fun b' q _ _ hb' id set hset => (leads_record b' q _ id).trans (hb' id set hset))
    (fun a _ _ harena _ _ hb' => anchored_process harena.coordinates hb' a)
    (fun _ => anchored_probes) h hanchored).2

variable {σ : Type} {lookup : Lookup σ} {levels : Nat} {s s' : σ} {g : CandidateGraph}

theorem leads_of_run (h : Tidy rules dependencies declared b) {id : ModuleId}
    (hid : b.graph.leads id = true) (hrun : (b.run lookup rules levels).run s = (some g, s')) :
    g.leads id = true := by
  obtain ⟨b', ⟨-, hb'⟩, -, rfl⟩ := run_induction
    (P := fun b => Tidy rules dependencies declared b ∧ b.graph.leads id = true)
    (fun b answers _ ⟨htidy, hb⟩ =>
      ⟨tidy_levelWith answers htidy, leads_levelWith answers htidy hb⟩)
    ⟨h, hid⟩ hrun
  exact hb'

theorem Alike.run_of_isEmpty (h : Alike absent b b') (lookup : Lookup σ) (levels : Nat) (s : σ)
    (hempty : b.queue.isEmpty = true) :
    (b'.run lookup rules levels).run s = (b.run lookup rules levels).run s := by
  obtain ⟨noted, rfl, -⟩ := h
  rw [Builder.run_of_isEmpty _ _ _ _ hempty]
  exact Builder.run_of_isEmpty _ _ _ _ hempty

/-- What is noted of a module that no edge leads to makes no difference to a build. -/
theorem run_alike (htidy : Tidy rules dependencies declared b) (hanchored : b.Anchored)
    (h : Alike absent b b') (hrun : (b.run lookup rules levels).run s = (some g, s'))
    (habsent : g.leads absent = false) : (b'.run lookup rules levels).run s = (some g, s') := by
  induction levels generalizing b b' s with
  | zero =>
      cases hempty : b.queue.isEmpty with
      | true => rw [h.run_of_isEmpty _ _ _ hempty, hrun]
      | false =>
          rw [run_zero _ _ _ hempty] at hrun
          cases hrun
  | succ levels ih =>
      cases hempty : b.queue.isEmpty with
      | true => rw [h.run_of_isEmpty _ _ _ hempty, hrun]
      | false =>
          have hempty' : b'.queue.isEmpty = false := by
            obtain ⟨noted, rfl, -⟩ := h
            exact hempty
          rw [run_succ _ _ _ _ hempty] at hrun
          obtain ⟨answers, s'', hlookUp, -⟩ := lookUp_eq lookup b.wanted.nodup_toList b s
          have hnext : ((b.level lookup rules).run s).1 = b.levelWith rules answers := by
            rw [level_eq, hlookUp]
            rfl
          have htidy' := tidy_levelWith answers htidy
          have hanchored' := anchored_levelWith answers htidy hanchored
          rw [← hnext] at htidy' hanchored'
          -- had the module been reached, an edge of the finished graph would lead to it
          have hunreached :
              ((b.level lookup rules).run s).1.exclusions.contains absent = false := by
            rw [← Bool.not_eq_true, SortedMap.contains_iff]
            rintro ⟨set, hset⟩
            rw [leads_of_run htidy' (hanchored' absent set hset) hrun] at habsent
            cases habsent
          obtain ⟨hstate, halike⟩ := h.level lookup s hunreached
          rw [run_succ _ _ _ _ hempty', hstate]
          exact ih htidy' hanchored' halike hrun

theorem anchored_start (root : Coordinates) (dependencies : List Dependency)
    (constraints : SortedSet Constraint) : (start root dependencies constraints).Anchored :=
  fun _ _ hset => nomatch hset

end Builder

end Lockstep
