import Lockstep.Proofs.Forcing
import Lockstep.Proofs.Provision

/-!
# Rounds that remember

Once choices begin to repeat, demands are remembered and the guide is only ever
extended. Where the remembered demands of a module come to a version, the guide
has that version (`Rounds.Mindful`). A round that meets nothing new is therefore
the last one, or it changes nothing at all (`Rounds.last_or_repeats`); and what
changes nothing goes on for ever (`Rounds.run_eq_none_of_repeats`).

The second case takes a module that had a version and has lost it. Demands that
are added take a version away only if they are stronger than all before and come
to no version themselves, as a range does that no published version is in. So a
module that is preferred at some version may lose it (`Rounds.exists_lost`), and
where demands are `Firm` none does (`Rounds.not_repeats_of_firm`).
-/

namespace Lockstep

/-! ## What decides a choice -/

namespace Choice

variable {order : VersionOrder} {g : CandidateGraph} {id : ModuleId}

/-- The candidates of the strongest kind there is. -/
def deciding (set : SortedSet Candidate) : List Candidate :=
  match ofKinds [.forcedEdge] set with
  | f :: fs => f :: fs
  | [] =>
    match ofKinds [.forcedConstraint] set with
    | f :: fs => f :: fs
    | [] =>
      match ofKinds [.edge, .constraint] set with
      | p :: ps => p :: ps
      | [] => ofKinds [.preference] set

theorem version_agreed_eq_none_iff {candidates : List Candidate} {reason : Reason}
    {conflict : List Party → ResolveError} :
    (agreed order id candidates reason conflict).version = none ↔ versions candidates = [] := by
  unfold agreed
  dsimp only
  cases hbest : order.maxOf (order.distinct (versions candidates)) with
  | none =>
      refine iff_of_true rfl ?_
      by_contra hne
      exact VersionOrder.distinct_ne_nil hne (VersionOrder.maxOf_eq_none_iff.1 hbest)
  | some best =>
      refine iff_of_false (fun h => by cases h) fun hnil => ?_
      rw [hnil] at hbest
      cases hbest

theorem version_highest_eq_none_iff {candidates : List Candidate} :
    (highest order g id candidates).version = none ↔ versions candidates = [] := by
  unfold highest
  cases htop : order.maxOf (versions candidates) with
  | none => exact iff_of_true rfl (VersionOrder.maxOf_eq_none_iff.1 htop)
  | some top =>
      refine iff_of_false (fun h => ?_) fun hnil => ?_
      · dsimp only at h
        cases hranges : unmatchedRanges candidates with
        | nil =>
            rw [hranges] at h
            cases h
        | cons u us =>
            rw [hranges] at h
            cases h
      · rw [hnil] at htop
        cases htop

/-- No version is chosen if the deciding candidates have come to none. -/
theorem version_select_eq_none_iff {set : SortedSet Candidate} :
    (select order g id set).version = none ↔ versions (deciding set) = [] := by
  unfold select deciding
  cases ofKinds [.forcedEdge] set with
  | cons f fs => exact version_agreed_eq_none_iff
  | nil =>
      cases ofKinds [.forcedConstraint] set with
      | cons f fs => exact version_agreed_eq_none_iff
      | nil => cases ofKinds [.edge, .constraint] set <;> exact version_highest_eq_none_iff

/-- Some candidate of the kinds is there. -/
theorem exists_of_ofKinds_eq_cons {kinds : List DemandKind} {set : SortedSet Candidate}
    {c : Candidate} {cs : List Candidate} (h : ofKinds kinds set = c :: cs) :
    c ∈ set ∧ c.demand.kind ∈ kinds :=
  mem_ofKinds.1 (h ▸ List.mem_cons_self)

theorem mem_ofKinds_of_subset {kinds : List DemandKind} {sub set : SortedSet Candidate}
    (hsub : sub ⊆ set) {c : Candidate} (hc : c ∈ ofKinds kinds sub) : c ∈ ofKinds kinds set := by
  obtain ⟨hc, hkind⟩ := mem_ofKinds.1 hc
  exact mem_ofKinds.2 ⟨hsub c hc, hkind⟩

theorem ofKinds_eq_nil_of_subset {kinds : List DemandKind} {sub set : SortedSet Candidate}
    (hsub : sub ⊆ set) (hnil : ofKinds kinds set = []) : ofKinds kinds sub = [] := by
  refine List.eq_nil_iff_forall_not_mem.2 fun c hc => ?_
  have hmem := mem_ofKinds_of_subset hsub hc
  rw [hnil] at hmem
  cases hmem

theorem versions_ofKinds_ne_nil_of_subset {kinds : List DemandKind}
    {sub set : SortedSet Candidate} (hsub : sub ⊆ set) (hne : versions (ofKinds kinds sub) ≠ []) :
    versions (ofKinds kinds set) ≠ [] := by
  obtain ⟨v, hv⟩ := List.exists_mem_of_ne_nil _ hne
  obtain ⟨c, hc, hversion⟩ := mem_versions.1 hv
  exact List.ne_nil_of_mem (mem_versions.2 ⟨c, mem_ofKinds_of_subset hsub hc, hversion⟩)

theorem versions_cons_ne_nil {c : Candidate} (hc : c.version? ≠ none) (cs : List Candidate) :
    versions (c :: cs) ≠ [] := by
  obtain ⟨v, hv⟩ := Option.ne_none_iff_exists'.1 hc
  exact List.ne_nil_of_mem (mem_versions.2 ⟨c, List.mem_cons_self, hv⟩)

/-- A version is not lost to more demands, if the forced ones among these come to a version and,
where a preference is met, so do all others. -/
theorem version_select_ne_none {sub set : SortedSet Candidate} (hsub : sub ⊆ set) {v : String}
    (hv : (select order g id sub).version = some v)
    (hforced : ∀ c ∈ set, c.demand.kind = .forcedEdge ∨ c.demand.kind = .forcedConstraint →
      c.version? ≠ none)
    (hpreferred : ∀ c ∈ set, c.demand.kind = .preference → ∀ c' ∈ set, c'.version? ≠ none) :
    (select order g id set).version ≠ none := by
  rw [Ne, version_select_eq_none_iff]
  have hsome : versions (deciding sub) ≠ [] := fun hnil => by
    rw [version_select_eq_none_iff.2 hnil] at hv
    cases hv
  unfold deciding at hsome ⊢
  -- A candidate of the strongest kind there is decides, and it comes to a version.
  cases hedges : ofKinds [.forcedEdge] set with
  | cons f fs =>
      obtain ⟨hf, hkind⟩ := exists_of_ofKinds_eq_cons hedges
      exact versions_cons_ne_nil (hforced f hf (Or.inl (List.mem_singleton.1 hkind))) fs
  | nil =>
      rw [ofKinds_eq_nil_of_subset hsub hedges] at hsome
      cases henforced : ofKinds [.forcedConstraint] set with
      | cons f fs =>
          obtain ⟨hf, hkind⟩ := exists_of_ofKinds_eq_cons henforced
          exact versions_cons_ne_nil (hforced f hf (Or.inr (List.mem_singleton.1 hkind))) fs
      | nil =>
          rw [ofKinds_eq_nil_of_subset hsub henforced] at hsome
          cases hplain : ofKinds [.edge, .constraint] set with
          | nil =>
              rw [ofKinds_eq_nil_of_subset hsub hplain] at hsome
              exact versions_ofKinds_ne_nil_of_subset hsub hsome
          | cons p ps =>
              dsimp only at hsome ⊢
              cases hplain' : ofKinds [.edge, .constraint] sub with
              | cons p' ps' =>
                  rw [hplain'] at hsome
                  rw [← hplain]
                  exact versions_ofKinds_ne_nil_of_subset hsub (hplain' ▸ hsome)
              | nil =>
                  -- There were only preferences, so whatever is met has a version.
                  rw [hplain'] at hsome
                  obtain ⟨w, hw⟩ := List.exists_mem_of_ne_nil _ hsome
                  obtain ⟨c, hc, -⟩ := mem_versions.1 hw
                  obtain ⟨hc, hkind⟩ := mem_ofKinds.1 hc
                  have hp := (exists_of_ofKinds_eq_cons hplain).1
                  exact versions_cons_ne_nil
                    (hpreferred c (hsub c hc) (List.mem_singleton.1 hkind) p hp) ps

end Choice

/-! ## Guides and memory -/

/-- The guide that a round gives has what is chosen for each module. -/
theorem Round.get?_guide_ofDemands (order : VersionOrder) (g : CandidateGraph) (demands : Demands)
    (id : ModuleId) : (ofDemands order g demands).guide.get? id =
      (demands.get? id).bind fun set => (Choice.select order g id set).version := by
  rw [get?_guide, get?_selections]
  cases demands.get? id with
  | none => rfl
  | some set =>
      show (choose order g id set).2.map Selection.version = _
      cases hs : (choose order g id set).2 with
      | some s => exact (of_choose_eq hs).1.symm
      | none =>
          have hsome : (Choice.select order g id set).version.isSome = false := by
            rw [← choose_snd_isSome_iff, hs]
            rfl
          exact (Option.isNone_iff_eq_none.1 (Option.isSome_eq_false_iff.1 hsome)).symm

/-- A module with demands has some. -/
theorem Demands.exists_mem_gather {g : CandidateGraph} {guide : Guide} {live : Live}
    {constraints : SortedSet Constraint} (hwalk : walk g guide = some live) {id : ModuleId}
    {set : SortedSet Candidate} (h : (gather g live guide constraints).get? id = some set) :
    ∃ c, c ∈ set := by
  obtain ⟨es, hes⟩ := SortedMap.contains_iff.1
    ((contains_gather g live guide constraints id).symm.trans (SortedMap.contains_iff.2 ⟨set, h⟩))
  obtain ⟨e, he, edge, hedge, -⟩ := Live.exists_mem_incoming hwalk hes
  exact ⟨_, (mem_of_get?_gather h).2 (Or.inl ⟨es, hes, e, he, edge, hedge, rfl⟩)⟩

namespace Rounds

variable {order : VersionOrder} {g : CandidateGraph} {constraints : SortedSet Constraint}
  {r : Rounds} {memory : Demands}

theorem next_of_none (h : r.remembered = none) (demands : Demands) (chosen : Guide) :
    r.next demands chosen =
      { guide := chosen
        history := chosen :: r.history
        remembered := if chosen ∈ r.history then some demands else none } := by
  unfold next
  rw [h]

theorem next_of_some (h : r.remembered = some memory) (demands : Demands) (chosen : Guide) :
    r.next demands chosen =
      { r with
        guide := r.guide.override chosen
        remembered := some (memory.override demands) } := by
  unfold next
  rw [h]

theorem recalled_of_remembered (h : r.remembered = some memory) (id : ModuleId) :
    r.recalled id = (memory.get? id).getD ∅ := by
  unfold recalled
  rw [h]

theorem learns_eq_false_iff (h : r.remembered = some memory) {fresh : Demands} :
    r.learns fresh = false ↔ ∀ id set, fresh.get? id = some set → set ⊆ r.recalled id := by
  unfold learns grew
  rw [h]
  dsimp only
  rw [List.any_eq_false]
  constructor
  · intro hall id set hset c hc
    have hknown := hall (id, set) (SortedMap.mem_entries_iff.2 hset)
    rw [recalled_of_remembered h, ← SortedSet.contains_iff]
    by_contra hnot
    exact hknown (List.any_eq_true.2 ⟨c, hc, by simpa using hnot⟩)
  · rintro hall ⟨id, set⟩ hmem hany
    obtain ⟨c, hc, hnot⟩ := List.any_eq_true.1 hany
    have hknown := hall id set (SortedMap.mem_entries_iff.1 hmem) c hc
    rw [recalled_of_remembered h, ← SortedSet.contains_iff] at hknown
    simp [hknown] at hnot

/-- A round that learns has met a demand that is not remembered. -/
theorem exists_of_learns (h : r.remembered = some memory) {fresh : Demands}
    (hlearns : r.learns fresh = true) :
    ∃ id set c, fresh.get? id = some set ∧ c ∈ set ∧ c ∉ r.recalled id := by
  by_contra hall
  push Not at hall
  rw [(learns_eq_false_iff h).2 fun id set hset c hc => hall id set c hset hc] at hlearns
  cases hlearns

/-- What the next round recalls is all that this one has chosen from. -/
theorem recalled_next (h : r.remembered = some memory) (demands : Demands) (chosen : Guide)
    (id : ModuleId) :
    (r.next demands chosen).recalled id = (demands.get? id).getD (r.recalled id) := by
  rw [next_of_some h, recalled_of_remembered rfl, recalled_of_remembered h,
    SortedMap.get?_override]
  cases demands.get? id <;> rfl

theorem recalled_subset_next (h : r.remembered = some memory) (fresh : Demands) (chosen : Guide)
    (id : ModuleId) : r.recalled id ⊆ (r.next (r.demands fresh) chosen).recalled id := by
  rw [recalled_next h, get?_demands]
  cases fresh.get? id with
  | none => exact SortedSet.Subset.refl _
  | some set => exact fun c hc => SortedSet.mem_union.2 (Or.inl hc)

theorem mem_recalled_next_of_mem (h : r.remembered = some memory) {fresh : Demands}
    {id : ModuleId} {set : SortedSet Candidate} (hset : fresh.get? id = some set) {c : Candidate}
    (hc : c ∈ set) (chosen : Guide) : c ∈ (r.next (r.demands fresh) chosen).recalled id := by
  rw [recalled_next h, get?_demands, hset]
  exact SortedSet.mem_union.2 (Or.inr hc)

theorem get?_guide_next_of_remembered (h : r.remembered = some memory) (demands : Demands)
    (chosen : Guide) (id : ModuleId) :
    (r.next demands chosen).guide.get? id = (chosen.get? id).or (r.guide.get? id) := by
  rw [next_of_some h]
  exact SortedMap.get?_override _ _ _

/-- The guide has the version that the remembered demands of a module come to, and only versions
that some of them have come to before. -/
structure Mindful (order : VersionOrder) (g : CandidateGraph) (r : Rounds) : Prop where
  chosen : ∀ id v, (Choice.select order g id (r.recalled id)).version = some v →
    r.guide.get? id = some v
  earlier : ∀ id v, r.guide.get? id = some v →
    ∃ sub, sub ⊆ r.recalled id ∧ (Choice.select order g id sub).version = some v

theorem mindful_first (demands : Demands) (history : List Guide) :
    Mindful order g ⟨(Round.ofDemands order g demands).guide, history, some demands⟩ := by
  constructor
  · intro id v hv
    rw [recalled_of_remembered rfl] at hv
    show (Round.ofDemands order g demands).guide.get? id = some v
    rw [Round.get?_guide_ofDemands]
    cases hset : demands.get? id with
    | some set =>
        rw [hset] at hv
        exact hv
    | none =>
        rw [hset, Option.getD_none, Choice.version_select_eq_none_iff.2 rfl] at hv
        cases hv
  · intro id v hv
    change (Round.ofDemands order g demands).guide.get? id = some v at hv
    rw [Round.get?_guide_ofDemands] at hv
    obtain ⟨set, hset, hv⟩ := Option.bind_eq_some_iff.1 hv
    refine ⟨set, ?_, hv⟩
    rw [recalled_of_remembered rfl, hset]
    exact SortedSet.Subset.refl set

theorem mindful_next (hmemory : r.remembered = some memory) (h : r.Mindful order g)
    (fresh : Demands) : Mindful order g
      (r.next (r.demands fresh) (Round.ofDemands order g (r.demands fresh)).guide) := by
  constructor
  · intro id v hv
    rw [recalled_next hmemory] at hv
    rw [get?_guide_next_of_remembered hmemory, Round.get?_guide_ofDemands]
    cases hset : (r.demands fresh).get? id with
    | none =>
        rw [hset] at hv
        exact h.chosen id v hv
    | some set =>
        rw [hset, Option.getD_some] at hv
        rw [Option.bind_some, hv]
        rfl
  · intro id v hv
    rw [get?_guide_next_of_remembered hmemory, Round.get?_guide_ofDemands] at hv
    rcases Option.or_eq_some_iff.1 hv with hv | ⟨-, hv⟩
    · obtain ⟨set, hset, hv⟩ := Option.bind_eq_some_iff.1 hv
      refine ⟨set, ?_, hv⟩
      rw [recalled_next hmemory, hset]
      exact SortedSet.Subset.refl set
    · obtain ⟨sub, hsub, hv⟩ := h.earlier id v hv
      exact ⟨sub, SortedSet.Subset.trans hsub (recalled_subset_next hmemory _ _ id), hv⟩

/-- A round that is not the last goes on from what it gathered. -/
theorem exists_of_step_eq_again {next : Rounds}
    (h : r.step order g constraints = some (.again next)) : ∃ live, walk g r.guide = some live ∧
      next = r.next (r.gathered g constraints live)
        (Round.ofDemands order g (r.gathered g constraints live)).guide := by
  obtain ⟨live, hwalk⟩ := Option.isSome_iff_exists.1 (walk_isSome g r.guide)
  rw [step_eq order g constraints r hwalk] at h
  split at h
  · cases h
  · exact ⟨live, hwalk, (Progress.again.inj (Option.some.inj h)).symm⟩

/-- Rounds that remember are mindful. -/
theorem mindful_of_reached (hr : Reached order g constraints r)
    (hmemory : r.remembered = some memory) : r.Mindful order g := by
  induction hr generalizing memory with
  | first => cases hmemory
  | @again r next _ hstep ih =>
      obtain ⟨live, -, rfl⟩ := exists_of_step_eq_again hstep
      cases hbefore : r.remembered with
      | some before => exact mindful_next hbefore (ih hbefore) _
      | none =>
          -- the round from which memory starts has just chosen by all of it
          rw [next_of_none hbefore] at hmemory ⊢
          dsimp only at hmemory
          rw [hmemory]
          split at hmemory
          · obtain rfl := Option.some.inj hmemory
            exact mindful_first _ _
          · cases hmemory

/-! ## Rounds that change nothing -/

/-- The round goes on from where it started. -/
def Repeats (order : VersionOrder) (g : CandidateGraph) (constraints : SortedSet Constraint)
    (r : Rounds) : Prop :=
  r.step order g constraints = some (.again r)

/-- A round that meets nothing new is the last one or changes nothing. -/
theorem last_or_repeats (hmemory : r.remembered = some memory) (h : r.Mindful order g)
    {live : Live} (hwalk : walk g r.guide = some live)
    (hlearns : r.learns (.gather g live r.guide constraints) = false) :
    r.step order g constraints = some (.settled live
        (.ofDemands order g (r.gathered g constraints live))) ∨
      r.Repeats order g constraints := by
  have hknown := (learns_eq_false_iff hmemory).1 hlearns
  -- modules that are still demanded are so by just what is remembered of them
  have hdemands : ∀ id set, (r.gathered g constraints live).get? id = some set →
      set = r.recalled id ∧ memory.get? id = some set := by
    intro id set hset
    rw [get?_demands] at hset
    obtain ⟨fresh, hfresh, rfl⟩ := Option.map_eq_some_iff.1 hset
    have hsame : (r.recalled id).union fresh = r.recalled id := by
      refine SortedSet.ext fun c => ?_
      rw [SortedSet.mem_union]
      exact or_iff_left_of_imp (hknown id fresh hfresh c)
    refine ⟨hsame, ?_⟩
    obtain ⟨c, hc⟩ := Demands.exists_mem_gather hwalk hfresh
    have hmem := hknown id fresh hfresh c hc
    rw [hsame]
    rw [recalled_of_remembered hmemory] at hmem ⊢
    cases hget : memory.get? id with
    | some set => rfl
    | none =>
        rw [hget] at hmem
        exact absurd hmem (SortedSet.not_mem_empty c)
  unfold Repeats
  rw [step_eq order g constraints r hwalk]
  split
  · exact Or.inl rfl
  · right
    have hguide : r.guide.override
        (Round.ofDemands order g (r.gathered g constraints live)).guide = r.guide := by
      refine SortedMap.ext fun id => ?_
      rw [SortedMap.get?_override]
      cases hv : (Round.ofDemands order g (r.gathered g constraints live)).guide.get? id with
      | none => rfl
      | some v =>
          rw [Round.get?_guide_ofDemands] at hv
          obtain ⟨set, hset, hv⟩ := Option.bind_eq_some_iff.1 hv
          rw [(hdemands id set hset).1] at hv
          exact (h.chosen id v hv).symm
    have hremembered : memory.override (r.gathered g constraints live) = memory := by
      refine SortedMap.ext fun id => ?_
      rw [SortedMap.get?_override]
      cases hset : (r.gathered g constraints live).get? id with
      | none => rfl
      | some set => exact (hdemands id set hset).2.symm
    rw [next_of_some hmemory, hguide, hremembered, ← hmemory]

/-- A round that meets nothing new and is not the last one changes nothing. -/
theorem repeats_of_learns_eq_false (hr : Reached order g constraints r)
    (hmemory : r.remembered = some memory) {live : Live} (hwalk : walk g r.guide = some live)
    (hlearns : r.learns (.gather g live r.guide constraints) = false) {next : Rounds}
    (hstep : r.step order g constraints = some (.again next)) : r.Repeats order g constraints := by
  refine (last_or_repeats hmemory (mindful_of_reached hr hmemory) hwalk hlearns).resolve_left ?_
  rw [hstep]
  intro hlast
  cases hlast

/-- The first round recalls all that the second one does, and more. -/
structure RecallsMore (next r : Rounds) : Prop where
  all : ∀ id, r.recalled id ⊆ next.recalled id
  more : ∃ id c, c ∈ next.recalled id ∧ c ∉ r.recalled id

/-- A round that remembers is the last one, changes nothing, or has the next one recall more. -/
theorem eq_or_recallsMore (hr : Reached order g constraints r)
    (hmemory : r.remembered = some memory) {next : Rounds}
    (hstep : r.step order g constraints = some (.again next)) : next = r ∨ next.RecallsMore r := by
  obtain ⟨live, hwalk, hnext⟩ := exists_of_step_eq_again hstep
  cases hlearns : r.learns (.gather g live r.guide constraints) with
  | true =>
      right
      subst hnext
      obtain ⟨id, set, c, hset, hc, hnew⟩ := exists_of_learns hmemory hlearns
      exact ⟨recalled_subset_next hmemory _ _,
        id, c, mem_recalled_next_of_mem hmemory hset hc _, hnew⟩
  | false =>
      left
      have hrepeats : r.step order g constraints = some (.again r) :=
        repeats_of_learns_eq_false hr hmemory hwalk hlearns hstep
      rw [hstep] at hrepeats
      exact Progress.again.inj (Option.some.inj hrepeats)

/-- Rounds that change nothing go on for ever. -/
theorem run_eq_none_of_repeats (h : r.Repeats order g constraints) (rounds : Nat) :
    r.run order g constraints rounds = none := by
  induction rounds with
  | zero => rfl
  | succ rounds ih =>
      unfold run
      rw [show r.step order g constraints = some (.again r) from h]
      exact ih

/-- If they come to a round that changes nothing, rounds never end. -/
theorem run_first_eq_none (hr : Reached order g constraints r)
    (h : ∀ rounds, r.run order g constraints rounds = none) (rounds : Nat) :
    Rounds.run order g constraints rounds {} = none := by
  induction hr generalizing rounds with
  | first => exact h rounds
  | again _ hstep ih =>
      refine ih (fun rounds => ?_) rounds
      cases rounds with
      | zero => rfl
      | succ rounds =>
          unfold run
          rw [hstep]
          exact h rounds

/-- Rounds do not repeat before they remember. -/
theorem exists_remembered_of_repeats (h : r.Repeats order g constraints) :
    ∃ memory, r.remembered = some memory := by
  obtain ⟨live, -, hnext⟩ := exists_of_step_eq_again h
  cases hmemory : r.remembered with
  | some memory => exact ⟨memory, rfl⟩
  | none =>
      rw [next_of_none hmemory] at hnext
      have hhistory := congrArg (fun r : Rounds => r.history.length) hnext
      simp at hhistory

/-- A round that changes nothing has lost the version of some module. -/
theorem exists_lost (hmindful : r.Mindful order g) (h : r.Repeats order g constraints) :
    ∃ id v, r.guide.get? id = some v ∧
      (Choice.select order g id (r.recalled id)).version = none := by
  obtain ⟨memory, hmemory⟩ := exists_remembered_of_repeats h
  obtain ⟨live, hwalk, hnext⟩ := exists_of_step_eq_again h
  -- nothing is added to memory, so the round has chosen from what it recalls
  have hrecalled : ∀ id set, (r.gathered g constraints live).get? id = some set →
      set = r.recalled id := by
    intro id set hset
    have hsame := recalled_next hmemory (r.gathered g constraints live)
      (Round.ofDemands order g (r.gathered g constraints live)).guide id
    rw [← hnext, hset] at hsame
    exact hsame.symm
  by_contra hnone
  push Not at hnone
  -- then the round has chosen what it was guided by, and has learned nothing
  have hchosen : (Round.ofDemands order g (r.gathered g constraints live)).guide =
      r.guide.filter fun id _ => (r.gathered g constraints live).contains id := by
    refine SortedMap.ext fun id => ?_
    rw [Round.get?_guide_ofDemands, SortedMap.get?_filter]
    cases hset : (r.gathered g constraints live).get? id with
    | none =>
        have hcontains : (r.gathered g constraints live).contains id = false := by
          unfold SortedMap.contains
          rw [hset]
          rfl
        rw [hcontains]
        cases r.guide.get? id <;> rfl
    | some set =>
        rw [SortedMap.contains_iff.2 ⟨set, hset⟩, Option.bind_some, hrecalled id set hset]
        cases hv : (Choice.select order g id (r.recalled id)).version with
        | some v =>
            rw [hmindful.chosen id v hv]
            rfl
        | none =>
            cases hguide : r.guide.get? id with
            | none => rfl
            | some v => exact absurd hv (hnone id v hguide)
  have hlearns : r.learns (.gather g live r.guide constraints) = false := by
    refine (learns_eq_false_iff hmemory).2 fun id set hset c hc => ?_
    rw [← hrecalled id _ ((get?_demands r _ id).trans (by rw [hset]; rfl))]
    exact SortedSet.mem_union.2 (Or.inr hc)
  have hstep : r.step order g constraints = some (.again r) := h
  rw [step_eq order g constraints r hwalk, if_pos ⟨hchosen, hlearns⟩] at hstep
  cases hstep

/-! ## Firm demands -/

/-- Some round meets the demand on the module. -/
def Meets (order : VersionOrder) (g : CandidateGraph) (constraints : SortedSet Constraint)
    (id : ModuleId) (c : Candidate) : Prop :=
  ∃ r live set, Reached order g constraints r ∧ walk g r.guide = some live ∧
    (Demands.gather g live r.guide constraints).get? id = some set ∧ c ∈ set

/-- All demands that are remembered have been met. -/
theorem meets_of_recalled (hr : Reached order g constraints r) {id : ModuleId} {c : Candidate}
    (hc : c ∈ r.recalled id) : Meets order g constraints id c := by
  induction hr with
  | first => exact absurd hc (SortedSet.not_mem_empty c)
  | @again r next hr hstep ih =>
      obtain ⟨live, hwalk, rfl⟩ := exists_of_step_eq_again hstep
      rcases mem_recalled_next hc with hc | ⟨set, hset, hc⟩
      · exact ih hc
      · rw [get?_demands] at hset
        obtain ⟨fresh, hfresh, rfl⟩ := Option.map_eq_some_iff.1 hset
        rcases SortedSet.mem_union.1 hc with hc | hc
        · exact ih hc
        · exact ⟨r, live, fresh, hr, hwalk, hfresh, hc⟩

/-- Forced demands come to a version, and so does every demand on a module that is also preferred
at some version. -/
structure Firm (order : VersionOrder) (g : CandidateGraph) (constraints : SortedSet Constraint) :
    Prop where
  forced : ∀ id c, Meets order g constraints id c →
    c.demand.kind = .forcedEdge ∨ c.demand.kind = .forcedConstraint → c.version? ≠ none
  preferred : ∀ id c, Meets order g constraints id c → c.demand.kind = .preference →
    ∀ c', Meets order g constraints id c' → c'.version? ≠ none

/-- Firm demands let no round repeat. -/
theorem not_repeats_of_firm (h : Firm order g constraints) (hr : Reached order g constraints r) :
    ¬r.Repeats order g constraints := by
  intro hrepeats
  obtain ⟨memory, hmemory⟩ := exists_remembered_of_repeats hrepeats
  have hmindful := mindful_of_reached hr hmemory
  obtain ⟨id, v, hguide, hnone⟩ := exists_lost hmindful hrepeats
  obtain ⟨sub, hsub, hv⟩ := hmindful.earlier id v hguide
  refine Choice.version_select_ne_none hsub hv ?_ ?_ hnone
  · exact fun c hc hkind => h.forced id c (meets_of_recalled hr hc) hkind
  · exact fun c hc hkind c' hc' =>
      h.preferred id c (meets_of_recalled hr hc) hkind c' (meets_of_recalled hr hc')

end Rounds

end Lockstep
