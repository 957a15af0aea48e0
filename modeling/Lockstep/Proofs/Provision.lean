import Lockstep.Proofs.Choosing
import Lockstep.Proofs.Coverage
import Lockstep.Version.Scheme

/-!
# Lookups suffice

The builder cannot know which versions will be selected, so it follows every
version that some edge or constraint asks for. A round walks only a part of
that: under any guide to versions on record, the live graph lies in what the
builder has reached, with at least its exclusions (`Coverage.live_le`). Every
edge that a round meets has therefore been looked up, and so has every
constraint that it applies (`lookups_suffice`).
-/

namespace Lockstep

variable {g : CandidateGraph} {R : Region} {declared : List Query} {guide : Guide} {live : Live}

/-- A guide to versions that are on record. -/
def CandidateGraph.Guides (g : CandidateGraph) (guide : Guide) : Prop :=
  ∀ id v, guide.get? id = some v → ∃ n, g.node? (id.atVersion v) = some n

namespace Coverage

theorem nodes_iff (h : Coverage g R declared) {c : Coordinates} :
    R.nodes c ↔ ∃ n, g.node? c = some n := by
  constructor
  · intro hc
    obtain ⟨f, hf⟩ := h.known c hc
    obtain ⟨n, hn, -⟩ := CandidateGraph.finding?_eq_some_iff.1 hf
    exact ⟨n, hn⟩
  · rintro ⟨n, hn⟩
    exact h.recorded c n.finding (CandidateGraph.finding?_eq_some_iff.2 ⟨n, hn, rfl⟩)

/-- An edge followed arrives at the guided version too. -/
theorem arrives_of_followed (h : Coverage g R declared) (hguide : g.Guides guide) {edge : Edge}
    {inherited : Exclusions} (hedge : g.Followed R edge inherited) :
    R.Arrives edge.target (edge.version? guide) inherited := by
  obtain ⟨set, hset, hsub, hnode⟩ := hedge.arrives
  refine ⟨set, hset, hsub, fun v hv => ?_⟩
  unfold Edge.version? at hv
  rcases Option.or_eq_some_iff.1 hv with hguided | ⟨-, hresolved⟩
  · exact h.nodes_iff.2 (hguide edge.target v hguided)
  · exact hnode v (hedge.resolved ▸ hresolved)

theorem closed (h : Coverage g R declared) (hguide : g.Guides guide) : R.Closed g guide :=
  ⟨fun e he edge hedge => h.arrives_of_followed hguide (h.root e he edge hedge),
    fun c hc set hset e he edge hedge hex =>
      h.arrives_of_followed hguide (h.onward c hc set hset e he edge hedge hex)⟩

/-- What is live has been reached by the builder. -/
theorem live_le (h : Coverage g R declared) (hguide : g.Guides guide)
    (hwalk : walk g guide = some live) : live.region.Le R :=
  le_of_walk hwalk (h.closed hguide)

/-- An edge that a walk follows has been followed by the builder. -/
theorem followed (h : Coverage g R declared) (hguide : g.Guides guide)
    (hwalk : walk g guide = some live) {e : EdgeId} {edge : Edge} (hedge : g.edge? e = some edge)
    (hfollows : Live.Follows g live e edge) : ∃ inherited, g.Followed R edge inherited := by
  rcases hfollows with he | ⟨c, hc, he, hex⟩
  · exact ⟨_, h.root e he edge hedge⟩
  · have hle := h.live_le hguide hwalk
    obtain ⟨set, hset⟩ := reached_of_walk hwalk hc
    obtain ⟨shared, hshared, hsub⟩ := hle.exclusions c.id set hset
    rw [Live.exclusionsOf_eq hset] at hex
    exact ⟨_, h.onward c (hle.nodes c hc) shared hshared e he edge hedge
      (Exclusions.exclude_eq_false_of_subset hsub hex)⟩

/-- A module that some live edge leads to has been reached by the builder. -/
theorem reached_of_incoming (h : Coverage g R declared) (hguide : g.Guides guide)
    (hwalk : walk g guide = some live) {id : ModuleId} {es : List EdgeId}
    (hes : live.incoming.get? id = some es) : ∃ set, R.exclusions id = some set := by
  obtain ⟨e, -, edge, hedge, rfl, hfollows⟩ := Live.exists_mem_incoming hwalk hes
  obtain ⟨inherited, hfollowed⟩ := h.followed hguide hwalk hedge hfollows
  obtain ⟨set, hset, -⟩ := hfollowed.arrives
  exact ⟨set, hset⟩

/-- A constraint that is applied to a demanded module has been looked up. -/
theorem asked_of_applied {constraints : SortedSet Constraint}
    (h : Coverage g R (constraints.toList.map fun k => ⟨k.target, k.requirement⟩))
    (hguide : g.Guides guide) (hwalk : walk g guide = some live) {k : Constraint}
    (hk : k ∈ Demands.applied g live guide constraints) {es : List EdgeId}
    (hes : live.incoming.get? k.target = some es) :
    ∃ o, g.outcome? ⟨k.target, k.requirement⟩ = some o ∧
      ∀ v, g.answer? ⟨k.target, k.requirement⟩ = some v → R.nodes (k.target.atVersion v) := by
  obtain ⟨set, hset⟩ := h.reached_of_incoming hguide hwalk hes
  refine h.constrained ⟨k.target, k.requirement⟩ ?_ set hset
  rcases Demands.mem_applied.1 hk with hk | ⟨c, hc, d, hd, k', hk', rfl⟩
  · exact Or.inl (List.mem_map.2 ⟨k, hk, rfl⟩)
  · exact Or.inr ⟨c, (h.live_le hguide hwalk).nodes c hc,
      CandidateGraph.mem_constraintsOf.2 ⟨d, hd, k', hk', rfl⟩⟩

end Coverage

/-! ## Candidates -/

/-- A candidate came to a version on record, or to none that answers its query. -/
structure Candidate.Settled (g : CandidateGraph) (id : ModuleId) (c : Candidate) : Prop where
  recorded : ∀ v, c.version? = some v → ∃ n, g.node? (id.atVersion v) = some n
  unmatched : ∀ s, c.outcome = .error s → ∃ u, s = .unmatched u

theorem Coverage.settled_ofEdge (h : Coverage g R declared) {edge : Edge} {inherited : Exclusions}
    (hfollowed : g.Followed R edge inherited) :
    (Demands.ofEdge g edge).Settled g edge.target := by
  obtain ⟨o, ho⟩ := hfollowed.asked
  obtain ⟨set, -, -, hnode⟩ := hfollowed.arrives
  constructor
  · intro v hv
    refine h.nodes_iff.1 (hnode v ?_)
    unfold Candidate.version? Demands.ofEdge at hv
    rw [← hfollowed.resolved]
    cases hresolved : edge.resolved with
    | none => simp [hresolved] at hv
    | some w => simpa [hresolved] using hv
  · intro s hs
    unfold Demands.ofEdge at hs
    cases hresolved : edge.resolved with
    | some w => simp [hresolved] at hs
    | none =>
        have hanswer := hfollowed.resolved.symm.trans hresolved
        cases o with
        | ok v =>
            rw [CandidateGraph.answer?_eq_some_iff.2 ho] at hanswer
            cases hanswer
        | error u =>
            refine ⟨u, ?_⟩
            simp only [hresolved, Demands.edgeShortfall, ho, Except.error.injEq] at hs
            exact hs.symm

theorem Coverage.settled_ofConstraint (h : Coverage g R declared) {k : Constraint}
    {o : Except Unmatched String} (ho : g.outcome? ⟨k.target, k.requirement⟩ = some o)
    (hnode : ∀ v, g.answer? ⟨k.target, k.requirement⟩ = some v → R.nodes (k.target.atVersion v)) :
    (Demands.ofConstraint g k).Settled g k.target := by
  unfold Demands.ofConstraint Demands.constraintOutcome
  rw [ho]
  cases o with
  | ok v =>
      refine ⟨fun w hw => ?_, fun s hs => (by cases hs)⟩
      obtain rfl := Option.some.inj hw
      exact h.nodes_iff.1 (hnode v (CandidateGraph.answer?_eq_some_iff.2 ho))
  | error u =>
      refine ⟨fun w hw => (by cases hw), fun s hs => ⟨u, ?_⟩⟩
      exact (Except.error.inj hs).symm

/-- All candidates of a round are settled. -/
theorem Coverage.settled_of_gather {constraints : SortedSet Constraint}
    (h : Coverage g R (constraints.toList.map fun k => ⟨k.target, k.requirement⟩))
    (hguide : g.Guides guide) (hwalk : walk g guide = some live) {id : ModuleId}
    {set : SortedSet Candidate}
    (hset : (Demands.gather g live guide constraints).get? id = some set)
    {c : Candidate} (hc : c ∈ set) : c.Settled g id := by
  rcases (Demands.mem_of_get?_gather hset).1 hc with
    ⟨es, hes, e, he, edge, hedge, rfl⟩ | ⟨k, hk, -, rfl, rfl⟩
  · obtain ⟨edge', hedge', rfl, hfollows⟩ := (Live.mem_of_get?_incoming hwalk hes).1 he
    rw [hedge] at hedge'
    obtain rfl := Option.some.inj hedge'
    obtain ⟨inherited, hfollowed⟩ := h.followed hguide hwalk hedge hfollows
    exact h.settled_ofEdge hfollowed
  · have hcontains := Demands.contains_gather g live guide constraints k.target
    rw [SortedMap.contains, SortedMap.contains, hset, Option.isSome_some] at hcontains
    obtain ⟨es, hes⟩ := Option.isSome_iff_exists.1 hcontains.symm
    obtain ⟨o, ho, hnode⟩ := h.asked_of_applied hguide hwalk hk hes
    exact h.settled_ofConstraint ho hnode

/-! ## Rounds -/

/-- A round may start from here: the guide is to versions on record, and so is all that is
remembered. -/
structure Rounds.Provided (g : CandidateGraph) (r : Rounds) : Prop where
  guides : g.Guides r.guide
  settled : ∀ id, ∀ c ∈ r.recalled id, c.Settled g id

theorem Round.guides_of_settled {order : VersionOrder} {demands : Demands}
    (hg : g.KeepsCoordinates)
    (h : ∀ id set, demands.get? id = some set → ∀ c ∈ set, c.Settled g id) :
    g.Guides (ofDemands order g demands).guide := by
  intro id v hv
  rw [get?_guide] at hv
  obtain ⟨s, hs, rfl⟩ := Option.map_eq_some_iff.1 hv
  obtain ⟨set, hset, hchoose⟩ := exists_demands_of_selected hs
  rcases (Choice.sound_select order g id set).origin _ (of_choose_eq hchoose).1 with
    ⟨c, hc, hversion⟩ | ⟨n, hn, -, hversion⟩
  · exact (h id set hset c hc).recorded _ hversion
  · obtain ⟨hid, n', hn'⟩ := (CandidateGraph.mem_versionsOf hg).1 (List.mem_map.2 ⟨n, hn, rfl⟩)
    refine ⟨n', ?_⟩
    rw [← hversion, ← hid]
    exact hn'

namespace Rounds

variable {order : VersionOrder} {constraints : SortedSet Constraint} {r : Rounds}

theorem settled_demands
    (h : Coverage g R (constraints.toList.map fun k => ⟨k.target, k.requirement⟩))
    (hr : r.Provided g) (hwalk : walk g r.guide = some live) {id : ModuleId}
    {set : SortedSet Candidate}
    (hset : (r.gathered g constraints live).get? id = some set) {c : Candidate}
    (hc : c ∈ set) : c.Settled g id := by
  rw [get?_demands] at hset
  obtain ⟨fresh, hfresh, rfl⟩ := Option.map_eq_some_iff.1 hset
  rcases SortedSet.mem_union.1 hc with hc | hc
  · exact hr.settled id c hc
  · exact h.settled_of_gather hr.guides hwalk hfresh hc

/-- What the next round recalls has been recalled before or was demanded in this one. -/
theorem mem_recalled_next {demands : Demands} {chosen : Guide} {id : ModuleId} {c : Candidate}
    (h : c ∈ (r.next demands chosen).recalled id) :
    c ∈ r.recalled id ∨ ∃ set, demands.get? id = some set ∧ c ∈ set := by
  unfold next recalled at h
  unfold recalled
  cases hmemory : r.remembered with
  | some memory =>
      simp only [hmemory, SortedMap.get?_override] at h
      cases hset : demands.get? id with
      | none =>
          rw [hset, Option.none_or] at h
          exact Or.inl h
      | some set =>
          rw [hset] at h
          exact Or.inr ⟨set, rfl, h⟩
  | none =>
      simp only [hmemory] at h
      split at h
      · next memory heq =>
        split at heq
        · obtain rfl := Option.some.inj heq
          cases hset : demands.get? id with
          | none =>
              rw [hset] at h
              exact absurd h (SortedSet.not_mem_empty c)
          | some set =>
              rw [hset] at h
              exact Or.inr ⟨set, rfl, h⟩
        · cases heq
      · exact absurd h (SortedSet.not_mem_empty c)

/-- The next guide has versions that were chosen, or that were guided to before. -/
theorem get?_guide_next {demands : Demands} {chosen : Guide} {id : ModuleId} {v : String}
    (h : (r.next demands chosen).guide.get? id = some v) :
    chosen.get? id = some v ∨ r.guide.get? id = some v := by
  unfold next at h
  cases hmemory : r.remembered with
  | none =>
      rw [hmemory] at h
      exact Or.inl h
  | some memory =>
      rw [hmemory] at h
      dsimp only at h
      rw [SortedMap.get?_override] at h
      exact (Option.or_eq_some_iff.1 h).imp_right And.right

theorem provided_step (hg : g.KeepsCoordinates)
    (h : Coverage g R (constraints.toList.map fun k => ⟨k.target, k.requirement⟩))
    (hr : r.Provided g) {next : Rounds}
    (hstep : r.step order g constraints = some (.again next)) : next.Provided g := by
  obtain ⟨live, hwalk⟩ := Option.isSome_iff_exists.1 (walk_isSome g r.guide)
  rw [step_eq order g constraints r hwalk] at hstep
  split at hstep
  · cases hstep
  · obtain rfl := Progress.again.inj (Option.some.inj hstep)
    have hsettled : ∀ id set, (r.gathered g constraints live).get? id = some set →
        ∀ c ∈ set, c.Settled g id :=
      fun id set hset c hc => settled_demands h hr hwalk hset hc
    constructor
    · intro id v hv
      rcases get?_guide_next hv with hv | hv
      · exact Round.guides_of_settled hg hsettled id v hv
      · exact hr.guides id v hv
    · intro id c hc
      rcases mem_recalled_next hc with hc | ⟨set, hset, hc⟩
      · exact hr.settled id c hc
      · exact hsettled id set hset c hc

theorem provided_first (g : CandidateGraph) : ({} : Rounds).Provided g :=
  ⟨fun id v hv => (by cases hv), fun id c hc => absurd hc (SortedSet.not_mem_empty c)⟩

theorem provided_of_reached (hg : g.KeepsCoordinates)
    (h : Coverage g R (constraints.toList.map fun k => ⟨k.target, k.requirement⟩))
    (hr : Reached order g constraints r) : r.Provided g := by
  induction hr with
  | first => exact provided_first g
  | again _ hstep ih => exact provided_step hg h ih hstep

end Rounds

/-! ## Nothing is missing -/

/-- Everything that a round relies on is there: its edges know their answers, its constraints have
been looked up, its candidates lack a version only where none answers, and what it chooses is on
record. -/
structure Rounds.Supplied (order : VersionOrder) (g : CandidateGraph)
    (constraints : SortedSet Constraint) (r : Rounds) (live : Live) : Prop where
  walked : walk g r.guide = some live
  edges : ∀ id es, live.incoming.get? id = some es → ∀ e ∈ es, ∃ edge o,
    g.edge? e = some edge ∧ edge.target = id ∧ g.outcome? edge.query = some o ∧
      edge.resolved = g.answer? edge.query
  applied : ∀ k ∈ Demands.applied g live r.guide constraints,
    live.incoming.contains k.target = true → ∃ o, g.outcome? ⟨k.target, k.requirement⟩ = some o
  shortfalls : ∀ id set, (r.gathered g constraints live).get? id = some set →
    ∀ c ∈ set, ∀ s, c.outcome = .error s → ∃ u, s = .unmatched u
  chosen : ∀ id set, (r.gathered g constraints live).get? id = some set →
    ∀ v, (Choice.select order g id set).version = some v → ∃ n, g.node? (id.atVersion v) = some n
  fetched : ∀ subject demands, .unresolved subject demands .unfetched ∉
    (Round.ofDemands order g (r.gathered g constraints live)).errors

/-- The builder looks up whatever a round over its graph may ask for, whatever the lookups
answer. -/
theorem lookups_suffice {σ : Type} {lookup : Lookup σ} {rules : PlatformRules} {root : Coordinates}
    {dependencies : List Dependency} {constraints : SortedSet Constraint} {levels : Nat}
    {s s' : σ} {g : CandidateGraph} {order : VersionOrder} {r : Rounds}
    (hbuild : ((Builder.start root dependencies constraints).run lookup rules levels).run s =
      (some g, s'))
    (hr : Rounds.Reached order g constraints r) : ∃ live, r.Supplied order g constraints live := by
  obtain ⟨b, rfl, hdone, htidy⟩ := Builder.tidy_of_run hbuild
  have h := htidy.coverage hdone
  have hg := htidy.arena.coordinates
  have hprovided := Rounds.provided_of_reached hg h hr
  obtain ⟨live, hwalk⟩ := Option.isSome_iff_exists.1 (walk_isSome b.graph r.guide)
  refine ⟨live, ?_⟩
  have hsettled : ∀ id set, (r.gathered b.graph constraints live).get? id = some set →
      ∀ c ∈ set, c.Settled b.graph id :=
    fun id set hset c hc => Rounds.settled_demands h hprovided hwalk hset hc
  have hchosen : ∀ id set,
      (r.gathered b.graph constraints live).get? id = some set →
      ∀ v, (Choice.select order b.graph id set).version = some v →
        ∃ n, b.graph.node? (id.atVersion v) = some n := by
    intro id set hset v hv
    rcases (Choice.sound_select order b.graph id set).origin v hv with
      ⟨c, hc, hversion⟩ | ⟨n, hn, -, rfl⟩
    · exact (hsettled id set hset c hc).recorded v hversion
    · obtain ⟨hid, n', hn'⟩ := (CandidateGraph.mem_versionsOf hg).1 (List.mem_map.2 ⟨n, hn, rfl⟩)
      refine ⟨n', ?_⟩
      rw [← hid]
      exact hn'
  constructor
  case walked => exact hwalk
  case edges =>
    intro id es hes e he
    obtain ⟨edge, hedge, htarget, hfollows⟩ := (Live.mem_of_get?_incoming hwalk hes).1 he
    obtain ⟨inherited, hfollowed⟩ := h.followed hprovided.guides hwalk hedge hfollows
    obtain ⟨o, ho⟩ := hfollowed.asked
    exact ⟨edge, o, hedge, htarget, ho, hfollowed.resolved⟩
  case applied =>
    intro k hk hcontains
    obtain ⟨es, hes⟩ := SortedMap.contains_iff.1 hcontains
    obtain ⟨o, ho, -⟩ := h.asked_of_applied hprovided.guides hwalk hk hes
    exact ⟨o, ho⟩
  case shortfalls => exact fun id set hset c hc => (hsettled id set hset c hc).unmatched
  case chosen => exact hchosen
  case fetched =>
    intro subject demands hmem
    obtain ⟨id, set, hset, herr⟩ := Round.mem_errors.1 hmem
    have hcause := (Choice.sound_select order b.graph id set).cause subject demands
    cases hversion : (Choice.select order b.graph id set).version with
    | none =>
        rw [Round.choose_fst_eq_of_none hversion] at herr
        exact hcause (Option.mem_toList.1 herr)
    | some v =>
        rw [Round.choose_fst_eq hversion] at herr
        rcases List.mem_append.1 herr with herr | herr
        · exact hcause (Option.mem_toList.1 herr)
        · obtain ⟨n, hn⟩ := hchosen id set hset v hversion
          have hmissing := Option.mem_toList.1 herr
          unfold Round.missing at hmissing
          dsimp only at hmissing
          rw [hn] at hmissing
          obtain ⟨m, -, heq⟩ := Option.map_eq_some_iff.1 hmissing
          cases heq

/-! ### A round after a downgrade -/

namespace Sample

/-- The newer `auth` is asked for by an older `base` only, and its constraint on `base` takes that
one out of the selection again. -/
def downgrade : Catalog :=
  ⟨[describe "auth" "1" [dependency "core" "1"],
    describe "auth" "2" [] [⟨id "base", .exact "2"⟩],
    describe "base" "1" [dependency "auth" "2"],
    describe "base" "2" [],
    describe "core" "1" [dependency "base" "1"]]⟩

/-- What the builder comes to for `downgrade`. -/
def downgradeBuild : Option CandidateGraph × Unit :=
  ((Builder.start root [dependency "auth" "1", dependency "base" "1"] ∅).run
    (downgrade.provider Version.semanticOrder).lookup [] 8).run ()

end Sample

theorem lookups_suffice_after_downgrade : ∃ g r live, Sample.downgradeBuild = (some g, ()) ∧
    Rounds.Reached Version.semanticOrder g ∅ r ∧ r.history ≠ [] ∧
    r.Supplied Version.semanticOrder g ∅ live := by
  have hsecond : (Sample.downgradeBuild.1.bind fun g =>
      (Rounds.following (Rounds.step Version.semanticOrder g ∅ {})).filter
        fun r => r.history ≠ []).isSome = true := by
    decide +kernel
  obtain ⟨r, hr⟩ := Option.isSome_iff_exists.1 hsecond
  obtain ⟨g, hg, hr⟩ := Option.bind_eq_some_iff.1 hr
  obtain ⟨hstep, hhistory⟩ := Option.filter_eq_some_iff.1 hr
  have hreached : Rounds.Reached Version.semanticOrder g ∅ r :=
    .again .first (Rounds.following_eq_some_iff.1 hstep)
  have hbuild : Sample.downgradeBuild = (some g, ()) := by
    rw [← hg]
  obtain ⟨live, hlive⟩ := lookups_suffice hbuild hreached
  exact ⟨g, r, live, hbuild, hreached, of_decide_eq_true hhistory, hlive⟩

end Lockstep
