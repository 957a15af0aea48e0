import Lockstep.Proofs.Barring
import Lockstep.Proofs.Consistency

/-!
# Clear ways

A way is clear if no edge of it excludes the target of a later one. No other
way can then take anything from it: an exclusion that no edge of a clear way
lists is missing from an open way to its end (`Resolution.Way.escapes`), and
those of the next target are such exclusions. So what a clear way leads to is
selected, and all its edges are let through (`Resolution.admitted_of_clear`).

The ways are those of the metadata: a selected version has all the edges that
its descriptor gives it, although it may first have been reached by a way that
excluded some of their targets (`Rounds.Settles.carries`).
-/

namespace Lockstep

namespace Resolution

/-- No edge of a path excludes the target of a later one. -/
def Clear (path : List Edge) : Prop :=
  path.Pairwise fun earlier later => earlier.dependency.exclusions.exclude later.target = false

/-- An edge is reported, and each time as honored or overridden. -/
def Admits (res : Resolution) (edge : Edge) : Prop :=
  (∃ o ∈ res.edges, o.edge = edge.id) ∧
    ∀ o ∈ res.edges, o.edge = edge.id → o.status = .honored ∨ o.status = .overridden

variable {g : CandidateGraph} {res : Resolution} {path : List Edge} {id : ModuleId}

theorem clear_concat_iff {edge : Edge} : Clear (path ++ [edge]) ↔
    Clear path ∧ ∀ earlier ∈ path, earlier.dependency.exclusions.exclude edge.target = false := by
  unfold Clear
  rw [List.pairwise_append]
  constructor
  · rintro ⟨hpath, -, hlast⟩
    exact ⟨hpath, fun earlier h => hlast earlier h edge (List.mem_singleton.2 rfl)⟩
  · rintro ⟨hpath, hlast⟩
    refine ⟨hpath, List.pairwise_singleton _ _, fun earlier h later hlater => ?_⟩
    rw [List.mem_singleton.1 hlater]
    exact hlast earlier h

/-- What no edge of a clear way lists is missing from an open way to its end. -/
theorem Way.escapes (h : res.Way g path id) (hclear : Clear path) {x : Exclusion}
    (hx : ∀ edge ∈ path, x ∉ edge.dependency.exclusions) : res.Escapes g x id := by
  induction h generalizing x with
  | root he hedge => exact .root he hedge (hx _ (List.mem_singleton.2 rfl))
  | onward _ hv he hedge ih =>
      obtain ⟨hpath, hlast⟩ := clear_concat_iff.1 hclear
      refine .onward ?_ hv he hedge ?_ ?_
      · exact ih hpath fun edge hmem => hx edge (List.mem_append_left _ hmem)
      · -- an exclusion of the new target is listed nowhere before
        intro y hy
        exact ih hpath fun edge hmem =>
          Exclusions.exclude_eq_false_iff.1 (hlast edge hmem) y hy
      · exact hx _ (List.mem_append_right _ (List.mem_singleton.2 rfl))

end Resolution

namespace Rounds.Settles

variable {rules : PlatformRules} {dependencies : List (Dependency × Bool)} {order : VersionOrder}
  {g : CandidateGraph} {expanded : SortedSet Coordinates} {constraints : SortedSet Constraint}
  {r : Rounds} {live : Live} {round : Round} (h : r.Settles order g constraints live round)

include h

/-! ## Edges of a clear way -/

/-- The walk follows every edge of a clear way. -/
theorem follows_of_clear {path : List Edge} {id : ModuleId}
    (hway : (Resolution.ofRound order g live round).Way g path id)
    (hclear : Resolution.Clear path) :
    ∀ edge ∈ path, ∃ e, g.edge? e = some edge ∧ Live.Follows g live e edge := by
  induction hway with
  | root he hedge =>
      intro edge hmem
      rw [List.mem_singleton.1 hmem]
      exact ⟨_, hedge, Or.inl he⟩
  | onward hway hv he hedge ih =>
      obtain ⟨hpath, hlast⟩ := Resolution.clear_concat_iff.1 hclear
      intro edge hmem
      rcases List.mem_append.1 hmem with hmem | hmem
      · exact ih hpath edge hmem
      · rw [List.mem_singleton.1 hmem]
        refine ⟨_, hedge, Or.inr ⟨_, h.mem_nodes_iff_versionOf?.2 hv, he, ?_⟩⟩
        refine (h.exclude_eq_false_iff hv).2 fun x hx => hway.escapes hpath fun earlier hmem => ?_
        exact Exclusions.exclude_eq_false_iff.1 (hlast earlier hmem) x hx

variable (harena : g.Arena rules dependencies expanded)

include harena

theorem admits_of_follows {e : EdgeId} {edge : Edge} (hedge : g.edge? e = some edge)
    (hfollows : Live.Follows g live e edge) :
    (Resolution.ofRound order g live round).Admits edge := by
  have hnumber : edge.id = e := harena.number e edge hedge
  constructor
  · obtain ⟨s, hs, -⟩ := h.version?_eq hedge hfollows
    exact ⟨Resolution.takenOutcome order s e edge, (Resolution.mem_outcomes h.walked).2
      (Or.inl ⟨e, edge, s, hedge, hfollows, hs, rfl⟩), hnumber.symm⟩
  · intro o ho heq
    obtain ⟨edge', hedge', haccounts⟩ := h.exists_accounts harena ho
    rw [heq, hnumber, hedge] at hedge'
    obtain rfl := Option.some.inj hedge'
    have hlet := Live.exclude_eq_false_of_follows harena h.walked hedge hfollows
    cases hstatus : o.status with
    | honored => exact Or.inl rfl
    | overridden => exact Or.inr rfl
    | excluded =>
        have hexcluded := haccounts.excluded.1 hstatus
        exact absurd (hlet.symm.trans hexcluded) Bool.false_ne_true

/-- A selected version has all the edges that its descriptor gives it. -/
theorem carries {R : Region} {declared : List Query} (hcoverage : Coverage g R declared)
    (hnodes : ∀ c, R.nodes c → c ∈ expanded) (hguide : g.Guides r.guide) {id : ModuleId}
    {v : String} (hv : (Resolution.ofRound order g live round).versionOf? id = some v) :
    ∃ d, g.descriptor? (id.atVersion v) = some d ∧ g.Carries (id.atVersion v)
      (g.outgoing (id.atVersion v)) (Builder.outgoingOf rules g.root (id.atVersion v) d) := by
  obtain ⟨d, hd⟩ := (h.consistent harena).described id v hv
  refine ⟨d, hd, ?_⟩
  have hlive : id.atVersion v ∈ live.nodes := h.mem_nodes_iff_versionOf?.2 hv
  have hexpanded := hnodes _ ((hcoverage.live_le hguide h.walked).nodes _ hlive)
  have hcarries := harena.outgoing _ hexpanded
  rw [CandidateGraph.requestsOf_of_descriptor? hd] at hcarries
  exact hcarries

end Rounds.Settles

/-- In a resolution without errors each clear way leads to a selected module, and none of its edges
is reported excluded, whatever other ways exclude. -/
theorem Resolution.admitted_of_clear {σ : Type} {lookup : Lookup σ} {rules : PlatformRules}
    {root : Coordinates} {dependencies : List Dependency} {constraints : SortedSet Constraint}
    {levels : Nat} {s s' : σ} {g : CandidateGraph} {order : VersionOrder} {res : Resolution}
    (hbuild : ((Builder.start root dependencies constraints).run lookup rules levels).run s =
      (some g, s'))
    (hres : g.ResolvesTo order constraints res) (herrors : res.errors = []) :
    g.Carries g.root g.rootEdges (Builder.rootRequests root dependencies) ∧
    (∀ id v, res.versionOf? id = some v → ∃ d, g.descriptor? (id.atVersion v) = some d ∧
      g.Carries (id.atVersion v) (g.outgoing (id.atVersion v))
        (Builder.outgoingOf rules g.root (id.atVersion v) d)) ∧
    ∀ path id, res.Way g path id → Clear path →
      (∃ v, res.versionOf? id = some v) ∧ ∀ edge ∈ path, res.Admits edge := by
  obtain ⟨b, rfl, hdone, htidy⟩ := Builder.tidy_of_run hbuild
  have hcoverage := htidy.coverage hdone
  have harena := htidy.arena
  obtain ⟨rounds, live, round, hrun, rfl⟩ := hres
  obtain ⟨r, hreached, hsettles⟩ := Rounds.exists_settles hrun herrors
  have hguide := (Rounds.provided_of_reached harena.coordinates hcoverage hreached).guides
  refine ⟨harena.root, ?_, ?_⟩
  · intro id v hv
    exact hsettles.carries harena hcoverage (fun c hc => hc) hguide hv
  · intro path id hway hclear
    have hfollows := hsettles.follows_of_clear hway hclear
    constructor
    · -- the last edge of the way is followed, so its target is selected
      cases hway with
      | root he hedge =>
          obtain ⟨s, hs, -⟩ := hsettles.version?_eq hedge (Or.inl he)
          exact ⟨s.version, Option.map_eq_some_iff.2 ⟨s, hs, rfl⟩⟩
      | onward _ _ _ hedge =>
          obtain ⟨e, hedge', hlast⟩ :=
            hfollows _ (List.mem_append_right _ (List.mem_singleton.2 rfl))
          obtain ⟨s, hs, -⟩ := hsettles.version?_eq hedge' hlast
          exact ⟨s.version, Option.map_eq_some_iff.2 ⟨s, hs, rfl⟩⟩
    · intro edge hmem
      obtain ⟨e, hedge, hfollow⟩ := hfollows edge hmem
      exact hsettles.admits_of_follows harena hedge hfollow

/-- The way through `auth` excludes `log`, the one through `base` does not. -/
theorem Resolution.admitted_over_second_way : ∃ g res path,
    Sample.loggingBuild (.ofModule (Sample.id "log")) (.ofModule (Sample.net "auth")) =
      (some g, ()) ∧
    g.ResolvesTo Version.semanticOrder ∅ res ∧ res.errors = [] ∧
    (∃ edge ∈ g.firstEdges, edge.dependency.exclusions.exclude (Sample.id "log") = true) ∧
    res.Way g path (Sample.id "log") ∧ Clear path ∧
    (∃ v, res.versionOf? (Sample.id "log") = some v) ∧ ∀ edge ∈ path, res.Admits edge := by
  have hfound :
      ((Sample.loggingBuild (.ofModule (Sample.id "log")) (.ofModule (Sample.net "auth"))).1.any
        fun g => (resolve Version.semanticOrder g ∅).any fun res => res.errors = [] ∧
          (∃ edge ∈ g.firstEdges,
            edge.dependency.exclusions.exclude (Sample.id "log") = true) ∧
          (∃ first ∈ g.edge? 1, ∃ second ∈ g.edge? 3, ∃ third ∈ g.edge? 4,
            first.target = Sample.net "base" ∧ second.target = Sample.net "core" ∧
            third.target = Sample.id "log" ∧ List.Pairwise (fun earlier later : Edge =>
              earlier.dependency.exclusions.exclude later.target = false)
              [first, second, third]) ∧
          res.versionOf? (Sample.net "base") = some "1" ∧
          res.versionOf? (Sample.net "core") = some "1" ∧
          1 ∈ g.rootEdges ∧ 3 ∈ g.outgoing ((Sample.net "base").atVersion "1") ∧
          4 ∈ g.outgoing ((Sample.net "core").atVersion "1")) = true := by
    decide +kernel
  obtain ⟨g, hg, hresolved⟩ := (Option.any_eq_true _ _).1 hfound
  obtain ⟨res, hresolve, hcond⟩ := (Option.any_eq_true _ _).1 hresolved
  obtain ⟨herrors, hexcludes, hedges, hbase, hcore, hfirst, hsecond, hthird⟩ :=
    of_decide_eq_true hcond
  obtain ⟨first, hedge, second, hedge', third, hedge'', htarget, htarget', htarget'', hclear⟩ :=
    hedges
  have hbuild : Sample.loggingBuild (.ofModule (Sample.id "log"))
      (.ofModule (Sample.net "auth")) = (some g, ()) := by
    rw [← hg]
  have hresolves := CandidateGraph.resolvesTo_of_resolve hresolve
  have hway : res.Way g [first, second, third] (Sample.id "log") := by
    have hway : res.Way g [first] first.target := .root hfirst hedge
    rw [htarget] at hway
    have hway' := hway.onward hbase hsecond hedge'
    rw [htarget'] at hway'
    have hway'' := hway'.onward hcore hthird hedge''
    rw [htarget''] at hway''
    exact hway''
  obtain ⟨-, -, hadmitted⟩ := admitted_of_clear hbuild hresolves herrors
  obtain ⟨hselected, hadmits⟩ := hadmitted _ _ hway hclear
  exact ⟨g, res, _, hbuild, hresolves, herrors, hexcludes, hway, hclear, hselected, hadmits⟩

end Lockstep
