import Lockstep.Proofs.Convergence
import Lockstep.Proofs.Members
import Lockstep.Proofs.Pinning

/-!
# Forced demands on selected versions

Forced demands are compared by the versions that they came to, not by what they
ask for. A run that converges therefore holds to each of them up to two
exceptions (`Catalog.Holds`): a range that no published version is in came to no
version at all, so nothing was compared; and a version may have several names,
of which a range may accept some only.

Forced edges come first. Constraints of enforced platforms are held to in the
same way, unless forced edges decided the version, which may be edges that are
only remembered. Forced alignment is held to without exception, since the members
are looked at once more in the end (`Request.holds_of_converged`).
-/

namespace Lockstep

/-! ## What is demanded by force -/

namespace Resolution

/-- A forced edge of the root or of a selected version leads to the module and is not excluded. -/
def Forces (g : CandidateGraph) (res : Resolution) (id : ModuleId) (q : Requirement) : Prop :=
  ∃ e edge, g.edge? e = some edge ∧ Live.Follows g res.live e edge ∧ edge.target = id ∧
    edge.dependency.forced = true ∧ edge.dependency.requirement = q

/-- A selected version constrains the module by force: it is an enforced platform, or an edge that
is not excluded asks for it as one. -/
def Enforces (g : CandidateGraph) (res : Resolution) (id : ModuleId) (q : Requirement) : Prop :=
  ∃ c d, res.versionOf? c.id = some c.version ∧ g.descriptor? c = some d ∧
    ⟨id, q⟩ ∈ d.constraints ∧
    (d.category = .enforcedPlatform ∨ ∃ e edge, g.edge? e = some edge ∧
      Live.Follows g res.live e edge ∧ edge.target = c.id ∧
      edge.dependency.category = some .enforcedPlatform)

end Resolution

namespace Catalog

variable {catalog : Catalog} {order : VersionOrder} {id : ModuleId} {v : String} {q : Requirement}

/-- Some published version that counts as the selected one meets the requirement, unless it is a
range that no published version is in. -/
def Holds (catalog : Catalog) (order : VersionOrder) (id : ModuleId) (v : String)
    (q : Requirement) : Prop :=
  (∃ d ∈ catalog.published id, order.same v d.version = true ∧ q.accepts order d.version = true) ∨
    q.isRange = true ∧ ∀ d ∈ catalog.published id, q.accepts order d.version = false

/-- Of a version with one name, the version itself meets the requirement. -/
theorem accepts_of_holds (horder : order.Oriented) (hnames : catalog.Names order id v)
    (h : catalog.Holds order id v q) : q.accepts order v = true ∨
      q.isRange = true ∧ ∀ d ∈ catalog.published id, q.accepts order d.version = false := by
  refine h.imp_left ?_
  rintro ⟨d, hd, hsame, haccepts⟩
  rw [← horder.same_comm] at hsame
  rwa [← hnames d hd hsame]

/-- A demand is held to if what it came to counts as the selected version. -/
theorem holds_of_same (horder : order.Oriented) (hv : ∃ d ∈ catalog.published id, d.version = v)
    (hsame : ∀ w, (catalog.provider order).answer? ⟨id, q⟩ = some w → order.same v w = true) :
    catalog.Holds order id v q := by
  cases hfind : catalog.find? order ⟨id, q⟩ with
  | some d =>
      obtain ⟨hd, haccepts⟩ := accepts_of_find? horder hfind
      refine Or.inl ⟨d, hd, hsame d.version ?_, haccepts⟩
      rw [Provider.answer?_eq_some_iff]
      unfold provider
      rw [hfind]
      rfl
  | none =>
      have hnone : ∀ d ∈ catalog.published id, q.accepts order d.version = false :=
        fun d hd => accepts_eq_false_of_find? horder hfind hd
      cases hq : q.version? with
      | none =>
          refine Or.inr ⟨?_, hnone⟩
          cases q with
          | range r => rfl
          | exact w => cases hq
          | prefer w => cases hq
      | some w =>
          -- a named version that is not there comes to itself, and cannot count as the selected one
          exfalso
          obtain ⟨d, hd, rfl⟩ := hv
          have hw := hsame w (by
            rw [Provider.answer?_eq_some_iff]
            unfold provider CandidateGraph.outcomeOf
            rw [hfind, hq])
          rw [find?_eq_none (q := ⟨id, q⟩) hq hfind hd] at hw
          cases hw

end Catalog

/-! ## Candidates of a selected version -/

namespace Rounds

variable {order : VersionOrder} {g : CandidateGraph} {constraints : SortedSet Constraint}
  {r : Rounds} {live : Live}

theorem ofEdge_mem_gathered (hwalk : walk g r.guide = some live) {e : EdgeId} {edge : Edge}
    (hedge : g.edge? e = some edge) (hfollows : Live.Follows g live e edge)
    {set : SortedSet Candidate}
    (hset : (r.gathered g constraints live).get? edge.target = some set) :
    Demands.ofEdge g edge ∈ set := by
  rw [get?_demands] at hset
  obtain ⟨fresh, hfresh, rfl⟩ := Option.map_eq_some_iff.1 hset
  obtain ⟨es, hes, he⟩ := Live.exists_get?_incoming hwalk hedge hfollows
  exact SortedSet.mem_union.2 (Or.inr ((Demands.mem_of_get?_gather hfresh).2
    (Or.inl ⟨es, hes, e, he, edge, hedge, rfl⟩)))

theorem ofConstraint_mem_gathered {k : Constraint}
    (hk : k ∈ Demands.applied g live r.guide constraints) (hwaived : Demands.waived g k = false)
    {set : SortedSet Candidate} (hset : (r.gathered g constraints live).get? k.target = some set) :
    Demands.ofConstraint g k ∈ set := by
  rw [get?_demands] at hset
  obtain ⟨fresh, hfresh, rfl⟩ := Option.map_eq_some_iff.1 hset
  exact SortedSet.mem_union.2 (Or.inr ((Demands.mem_of_get?_gather hfresh).2
    (Or.inr ⟨k, hk, hwaived, rfl, rfl⟩)))

/-- What is selected in the end is chosen without an error. -/
theorem Settles.exists_choice {round : Round} (h : r.Settles order g constraints live round)
    {id : ModuleId} {s : Selection} (hs : round.selections.get? id = some s) :
    ∃ set, (r.gathered g constraints live).get? id = some set ∧
      (Choice.select order g id set).version = some s.version ∧
      (Choice.select order g id set).reason = s.reason ∧
      (Choice.select order g id set).error = none := by
  have herrors := h.no_errors
  rw [h.chosen] at hs herrors
  obtain ⟨set, hset, hchoose⟩ := Round.exists_demands_of_selected hs
  obtain ⟨hversion, hreason, -⟩ := Round.of_choose_eq hchoose
  obtain ⟨s', -, -, herror, -⟩ := Round.selected_of_no_errors herrors hset
  exact ⟨set, hset, hversion, hreason.symm, herror⟩

/-- What selected versions enforce, the last round applies by force: an edge that asks for one of
them as an enforced platform has led to it in this round. -/
theorem Settles.mem_applied_of_enforces {round : Round}
    (h : r.Settles order g constraints live round) {id : ModuleId} {q : Requirement}
    (hq : (Resolution.ofRound order g live round).Enforces g id q) :
    ∃ c, (⟨id, q, .published c, true⟩ : Constraint) ∈
      Demands.applied g live r.guide constraints := by
  obtain ⟨c, d, hc, hd, hk, hforces⟩ := hq
  have henforces : Demands.enforces g live r.guide c d = true := by
    unfold Demands.enforces
    rw [Bool.or_eq_true]
    rcases hforces with hcategory | ⟨e, edge, hedge, hfollows, htarget, hcategory⟩
    · left
      unfold Descriptor.forcesConstraints
      rw [hcategory]
      rfl
    · right
      obtain ⟨es, hes, he⟩ := Live.exists_get?_incoming h.walked hedge hfollows
      obtain ⟨s, hs, hguided⟩ := h.version?_eq hedge hfollows
      obtain ⟨s', hs', hversion⟩ := Option.map_eq_some_iff.1 hc
      rw [htarget] at hes hs
      obtain rfl := Option.some.inj (hs.symm.trans hs')
      rw [hes, Option.getD_some, List.any_eq_true]
      refine ⟨e, he, ?_⟩
      rw [hedge]
      dsimp only
      rw [hcategory, hguided, hversion]
      simp
  refine ⟨c, Demands.mem_applied.2 (Or.inr ⟨c, h.mem_nodes_iff_versionOf?.2 hc, d, hd,
    ⟨id, q⟩, hk, ?_⟩)⟩
  rw [henforces]
  rfl

end Rounds

namespace Choice

variable {order : VersionOrder} {g : CandidateGraph} {id : ModuleId} {set : SortedSet Candidate}
  {c : Candidate} {v w : String}

theorem same_of_forcedEdge (horder : order.Oriented)
    (hv : (select order g id set).version = some v) (herror : (select order g id set).error = none)
    (hc : c ∈ set) (hkind : c.demand.kind = .forcedEdge) (hw : c.version? = some w) :
    order.same v w = true := by
  have hmem : w ∈ forcedVersions set := mem_forcedVersions.2 ⟨c, hc, hkind, hw⟩
  rw [select_of_forced hmem] at hv herror
  exact same_of_agreed herror horder hv hmem

/-- Unless forced edges decide, forced constraints do. -/
theorem same_of_forcedConstraint (horder : order.Oriented)
    (hv : (select order g id set).version = some v) (herror : (select order g id set).error = none)
    (hreason : (select order g id set).reason ≠ .forced)
    (hc : c ∈ set) (hkind : c.demand.kind = .forcedConstraint) (hw : c.version? = some w) :
    order.same v w = true := by
  have hmem : c ∈ ofKinds [.forcedConstraint] set :=
    mem_ofKinds.2 ⟨hc, List.mem_singleton.2 hkind⟩
  unfold select at hv herror hreason
  cases hedges : ofKinds [.forcedEdge] set with
  | cons f fs =>
      rw [hedges] at hv hreason
      exact absurd (reason_of_agreed hv) hreason
  | nil =>
      -- no forced edge, so forced constraints are next
      rw [hedges] at hv herror
      cases hforced : ofKinds [.forcedConstraint] set with
      | nil =>
          rw [hforced] at hmem
          cases hmem
      | cons f fs =>
          rw [hforced] at hv herror hmem
          exact same_of_agreed herror horder hv (mem_versions.2 ⟨c, hmem, hw⟩)

end Choice

/-! ## Runs that converge -/

namespace Run.Converges

variable {r : Run} {catalog : Catalog} {it : Iteration} {b : Builder} {res : Resolution}
  (h : r.Converges (catalog.provider r.order) it b res) (horder : r.order.Oriented)

include h horder

/-- Forced edges are held to. -/
theorem holds_of_forces {id : ModuleId} {s : Selection} (hs : res.selections.get? id = some s)
    {q : Requirement} (hq : res.Forces b.graph id q) : catalog.Holds r.order id s.version q := by
  have hpublished := h.exists_published (Option.map_eq_some_iff.2 ⟨s, hs, rfl⟩)
  obtain ⟨last, live, round, hsettles, hprovided, rfl⟩ := h.exists_last
  obtain ⟨e, edge, hedge, hfollows, rfl, hforced, rfl⟩ := hq
  obtain ⟨set, hset, hversion, -, herror⟩ := hsettles.exists_choice hs
  refine Catalog.holds_of_same horder hpublished fun w hw => ?_
  refine Choice.same_of_forcedEdge horder hversion herror
    (Rounds.ofEdge_mem_gathered hsettles.walked hedge hfollows hset) (if_pos hforced) ?_
  rw [Task.Pins.version?_ofEdge h.finished hprovided.guides hsettles.walked hedge hfollows]
  exact hw

/-- Enforced constraints are held to where forced edges do not decide. -/
theorem holds_of_enforces {id : ModuleId} {s : Selection} (hs : res.selections.get? id = some s)
    (hreason : s.reason ≠ .forced) {q : Requirement} (hq : res.Enforces b.graph id q) :
    catalog.Holds r.order id s.version q := by
  have hpublished := h.exists_published (Option.map_eq_some_iff.2 ⟨s, hs, rfl⟩)
  obtain ⟨last, live, round, hsettles, hprovided, rfl⟩ := h.exists_last
  obtain ⟨set, hset, hversion, hreason', herror⟩ := hsettles.exists_choice hs
  obtain ⟨c, happlied⟩ := hsettles.mem_applied_of_enforces hq
  refine Catalog.holds_of_same horder hpublished fun w hw => ?_
  refine Choice.same_of_forcedConstraint horder hversion herror (hreason' ▸ hreason)
    (Rounds.ofConstraint_mem_gathered happlied rfl hset) rfl ?_
  -- the builder has looked the constraint up, since an edge leads to the module
  obtain ⟨es, hes⟩ := hsettles.exists_incoming hs
  obtain ⟨o, ho, -⟩ := h.finished.coverage.asked_of_applied hprovided.guides hsettles.walked
    happlied hes
  rw [Demands.version?_ofConstraint, h.finished.answer?_eq ⟨o, ho⟩]
  exact hw

omit horder in
/-- Strict alignment is held to. -/
theorem same_of_strict {p : AlignedPlatform}
    (hp : p ∈ (align r.order b.graph r.rules res).platforms) (hstrict : p.strict = true)
    {id : ModuleId} (hid : id ∈ p.members) {v : String} (hv : res.versionOf? id = some v) :
    r.order.same v p.version = true := by
  have hplaced := Alignment.misaligned_eq_nil_iff.1 h.placed p hp id hid v hv
  unfold AlignedPlatform.isAstray at hplaced
  rw [hstrict] at hplaced
  simpa using hplaced

end Run.Converges

/-- A forced dependency of a request is an edge of the root. -/
theorem Task.Finished.forces_of_mem {t : Task} {b : Builder} (hb : t.Finished b) {d : Dependency}
    (hd : d ∈ t.dependencies) (hne : d.target ≠ t.root.id) (hforced : d.forced = true)
    (res : Resolution) : res.Forces b.graph d.target d.requirement := by
  obtain ⟨e, he, edge, hedge, rfl⟩ := hb.exists_rootEdge hd hne
  exact ⟨e, edge, hedge, Or.inl he, rfl, hforced, rfl⟩

/-- Where a run converges, the selected versions hold to all forced edges, to enforced constraints
where forced edges do not decide, and to strict alignment. A version with one name is accepted
itself, but for ranges that no published version is in. -/
theorem Request.holds_of_converged {request : Request} {settings : Settings} {catalog : Catalog}
    {G : ResolvedGraph} (h : request.resolveOver settings catalog = .converged G) :
    ∃ it b res, (Run.ofRequest request settings catalog).Converges
        (catalog.provider (request.order settings)) it b res ∧
      G = (Run.ofRequest request settings catalog).graphOf it b.graph res ∧
      ∀ m ∈ G.modules,
        (∀ q, (res.Forces b.graph m.id q ∨ m.reason ≠ .forced ∧ res.Enforces b.graph m.id q) →
          catalog.Holds (request.order settings) m.id m.version q ∧
          (catalog.Names (request.order settings) m.id m.version →
            q.accepts (request.order settings) m.version = true ∨ q.isRange = true ∧
              ∀ d ∈ catalog.published m.id, q.accepts (request.order settings) d.version = false)) ∧
        ∀ p ∈ G.platforms, p.strict = true → m.id ∈ p.members →
          (Requirement.exact p.version).accepts (request.order settings) m.version = true := by
  obtain ⟨it, b, res, hconverges, rfl, -⟩ := Run.exists_converges h
  have horder : (Run.ofRequest request settings catalog).order.Oriented := Scheme.oriented _
  refine ⟨it, b, res, hconverges, rfl, fun m hm => ?_⟩
  unfold Run.graphOf at hm
  rw [ResolvedGraph.modules_ofResolution] at hm
  obtain ⟨s, hs, hversion, hreason⟩ := ResolvedGraph.mem_modulesOf.1 hm
  rw [hversion, hreason]
  constructor
  · intro q hq
    have hholds : catalog.Holds (request.order settings) m.id s.version q := by
      rcases hq with hforces | ⟨hreason, henforces⟩
      · exact hconverges.holds_of_forces horder hs hforces
      · exact hconverges.holds_of_enforces horder hs hreason henforces
    exact ⟨hholds, fun hnames => Catalog.accepts_of_holds horder hnames hholds⟩
  · intro p hp hstrict hid
    have hsame := hconverges.same_of_strict hp hstrict hid (Option.map_eq_some_iff.2 ⟨s, hs, rfl⟩)
    rwa [← horder.same_comm] at hsame

/-! ### Demands that are held to, and demands that are lost -/

namespace Sample

/-- `core` is forced down, and the enforced platform `plan` brings `base` down. -/
def pressed : Request where
  root
  dependencies := [(dependency "core" "1").force, dependency "core" "2", dependency "base" "2",
    (dependency "plan" "1").withCategory .enforcedPlatform]

def pressing : Catalog :=
  ⟨[describe "core" "1" [], describe "core" "2" [], describe "base" "1" [], describe "base" "2" [],
    describe "plan" "1" [] [⟨id "base", .exact "1"⟩]]⟩

/-- One version and a range without it, both by force. -/
def torn : Request where
  root
  dependencies := [(dependency "core" "1").force, (rangeOf "core" "2" "3").force]

/-- Only the version that `torn` asks for is published. -/
def single : Catalog :=
  ⟨[describe "core" "1" []]⟩

/-- An older `base` forces `core`; it is in the selection only until `auth` goes up, which it does
because of that `base`. The enforced platform `plan` asks for a newer `core`. -/
def evicted : Request where
  root
  dependencies := [dependency "auth" "1", dependency "base" "1", dependency "core" "2",
    dependency "plan" "1"]

def evicting : Catalog :=
  ⟨[describe "auth" "1" [], describe "auth" "2" [] [⟨id "base", .exact "2"⟩],
    describe "base" "1" [dependency "auth" "2", (dependency "core" "1").force],
    describe "base" "2" [], describe "core" "1" [], describe "core" "2" [],
    { describe "plan" "1" [] [⟨id "core", .exact "2"⟩] with category := .enforcedPlatform }]⟩

/-- Two names of one version, of which only one counts as a third name. -/
def renamed : Request where
  root := ⟨id "zoo", "1"⟩
  dependencies := [dependency "auth" "1", (dependency "core" "1-ga").force]

def synonyms : Catalog :=
  ⟨[describe "core" "1.0" [], describe "core" "1" [],
    describe "auth" "1" [(dependency "core" "1.0").force]]⟩

/-- The selected version of a module, if the run converges. -/
def selected? (request : Request) (catalog : Catalog) (name : String) : Option String :=
  (request.resolveOver {} catalog).graph?.bind (·.versionOf? (id name))

end Sample

theorem Request.holds_over_pressing : ∃ G, Sample.pressed.resolveOver {} Sample.pressing =
      .converged G ∧
    ⟨Sample.id "core", "1", .forced⟩ ∈ G.modules ∧
    ⟨Sample.id "base", "1", .byConstraint⟩ ∈ G.modules ∧
    Sample.pressing.Holds (Sample.pressed.order {}) (Sample.id "core") "1" (.exact "1") := by
  have hfound : ((Sample.pressed.resolveOver {} Sample.pressing).graph?.any fun G =>
      ⟨Sample.id "core", "1", .forced⟩ ∈ G.modules ∧
      ⟨Sample.id "base", "1", .byConstraint⟩ ∈ G.modules) = true := by
    decide +kernel
  obtain ⟨G, hgraph, hcond⟩ := (Option.any_eq_true _ _).1 hfound
  obtain ⟨hcore, hbase⟩ := of_decide_eq_true hcond
  have hconverged := Outcome.eq_of_graph? hgraph
  refine ⟨G, hconverged, hcore, hbase, ?_⟩
  obtain ⟨it, b, res, hconverges, -, hheld⟩ := holds_of_converged hconverged
  have hmem : (Sample.dependency "core" "1").force ∈ Sample.pressed.dependencies := by decide
  have hne : (Sample.dependency "core" "1").force.target ≠ Sample.pressed.root.id := by decide
  exact ((hheld _ hcore).1 _ (Or.inl (hconverges.finished.forces_of_mem hmem hne rfl res))).1

/-- A forced range that nothing published is in is lost next to another forced edge. -/
theorem Request.lost_over_single : ∃ G it b res,
    Sample.torn.resolveOver {} Sample.single = .converged G ∧
    (Run.ofRequest Sample.torn {} Sample.single).Converges
      (Sample.single.provider (Sample.torn.order {})) it b res ∧
    G = (Run.ofRequest Sample.torn {} Sample.single).graphOf it b.graph res ∧
    ∃ m ∈ G.modules, ∃ q, res.Forces b.graph m.id q ∧
      q.accepts (Sample.torn.order {}) m.version = false := by
  have hfound : ((Sample.torn.resolveOver {} Sample.single).graph?.any fun G =>
      ⟨Sample.id "core", "1", .forced⟩ ∈ G.modules) = true := by
    decide +kernel
  obtain ⟨G, hgraph, hcond⟩ := (Option.any_eq_true _ _).1 hfound
  have hconverged := Outcome.eq_of_graph? hgraph
  obtain ⟨it, b, res, hconverges, hG, -⟩ := Run.exists_converges hconverged
  have hmem : (Sample.rangeOf "core" "2" "3").force ∈ Sample.torn.dependencies := by decide
  have hne : (Sample.rangeOf "core" "2" "3").force.target ≠ Sample.torn.root.id := by decide
  refine ⟨G, it, b, res, hconverged, hconverges, hG, _, of_decide_eq_true hcond, _,
    hconverges.finished.forces_of_mem hmem hne rfl res, ?_⟩
  decide +kernel

-- Remembered edges decide before enforced constraints do.
example : Sample.selected? Sample.evicted Sample.evicting "core" = some "1" := by decide +kernel

-- What is forced need not accept every version that its own answer counts as.
example : Sample.selected? Sample.renamed Sample.synonyms "core" = some "1.0" ∧
    (Requirement.exact "1-ga").accepts (Sample.renamed.order {}) "1.0" = false := by decide +kernel

end Lockstep
