import Lockstep.Proofs.Gathering

/-!
# The versions chosen

A version is chosen only if some candidate came to it or it is on record with
metadata (`Choice.origin_of_select`), and a module without one has an error
(`Choice.error_of_select`). A round without errors thus selects one version,
with metadata, of every module that is demanded (`Round.selected_of_no_errors`).
-/

namespace Lockstep

namespace VersionOrder

theorem mem_of_mem_distinct {order : VersionOrder} {l : List String} {v : String}
    (h : v ∈ order.distinct l) : v ∈ l := by
  unfold distinct at h
  suffices hgen : ∀ (l kept : List String), v ∈ l.foldl (fun kept w =>
      if kept.any (order.same · w) then kept else kept ++ [w]) kept → v ∈ kept ∨ v ∈ l by
    exact (hgen l [] h).resolve_left List.not_mem_nil
  intro l
  induction l with
  | nil => exact fun kept h => Or.inl h
  | cons w rest ih =>
      intro kept h
      rw [List.foldl_cons] at h
      rcases ih _ h with h | h
      · split at h
        · exact Or.inl h
        · rcases List.mem_append.1 h with h | h
          · exact Or.inl h
          · exact Or.inr (List.mem_cons.2 (Or.inl (List.mem_singleton.1 h)))
      · exact Or.inr (List.mem_cons_of_mem _ h)

end VersionOrder

namespace Choice

variable {order : VersionOrder} {g : CandidateGraph} {id : ModuleId}

theorem mem_versions {candidates : List Candidate} {v : String} :
    v ∈ versions candidates ↔ ∃ c ∈ candidates, c.version? = some v :=
  List.mem_filterMap

theorem mem_ofKinds {kinds : List DemandKind} {candidates : SortedSet Candidate} {c : Candidate} :
    c ∈ ofKinds kinds candidates ↔ c ∈ candidates ∧ c.demand.kind ∈ kinds := by
  unfold ofKinds
  rw [List.mem_filter, List.contains_iff_mem]
  rfl

/-- The version that a choice may be: one that a candidate came to, or one on record. -/
def Origin (g : CandidateGraph) (id : ModuleId) (candidates : List Candidate) (v : String) : Prop :=
  (∃ c ∈ candidates, c.version? = some v) ∨
    ∃ n ∈ g.versionsOf id, n.finding.descriptor?.isSome = true ∧ n.coordinates.version = v

theorem Origin.mono {candidates more : List Candidate} {v : String}
    (hsub : ∀ c ∈ candidates, c ∈ more) (h : Origin g id candidates v) : Origin g id more v :=
  h.imp_left fun ⟨c, hc, hv⟩ => ⟨c, hsub c hc, hv⟩

/-- A choice has an error or a version. -/
structure Sound (g : CandidateGraph) (id : ModuleId) (candidates : List Candidate)
    (choice : Choice) : Prop where
  origin : ∀ v, choice.version = some v → Origin g id candidates v
  error : choice.version = none → choice.error ≠ none
  cause : ∀ subject demands, choice.error ≠ some (.unresolved subject demands .unfetched)
  /-- That alignment still changes is for a run to tell. -/
  selecting : ∀ n cs, choice.error ≠ some (.noConvergence n cs)

theorem sound_unresolved (g : CandidateGraph) (id : ModuleId) (candidates : List Candidate) :
    Sound g id candidates (unresolved id candidates) := by
  unfold unresolved
  refine ⟨fun v hv => (by cases hv), fun _ h => (by cases h), fun subject demands h => ?_,
    fun _ _ h => (by cases h)⟩
  cases hs : candidates.findSome? Candidate.shortfall? <;> simp [hs] at h

theorem sound_agreed {candidates : List Candidate} {reason : Reason}
    {conflict : List Party → ResolveError}
    (hconflict : ∀ parties subject demands,
      conflict parties ≠ .unresolved subject demands .unfetched)
    (hselecting : ∀ parties n cs, conflict parties ≠ .noConvergence n cs) :
    Sound g id candidates (agreed order id candidates reason conflict) := by
  unfold agreed
  dsimp only
  cases hbest : order.maxOf (order.distinct (versions candidates)) with
  | none => exact sound_unresolved g id candidates
  | some best =>
      refine ⟨?_, fun h => (by cases h), ?_, ?_⟩
      · rintro v hv
        obtain rfl := Option.some.inj hv
        exact Or.inl (mem_versions.1
          (VersionOrder.mem_of_mem_distinct (VersionOrder.mem_of_maxOf hbest)))
      · intro subject demands h
        dsimp only at h
        split at h
        · exact hconflict _ subject demands (Option.some.inj h)
        · cases h
      · intro n cs h
        dsimp only at h
        split at h
        · exact hselecting _ n cs (Option.some.inj h)
        · cases h

theorem origin_highestInRanges {candidates : List Candidate} {v : String}
    (h : highestInRanges order g id candidates = some v) : Origin g id candidates v := by
  have hmem := (List.mem_filter.1 (VersionOrder.mem_of_maxOf h)).1
  obtain ⟨n, hn, hv⟩ := List.mem_filterMap.1 hmem
  obtain ⟨d, hd, rfl⟩ := Option.map_eq_some_iff.1 hv
  exact Or.inr ⟨n, hn, by rw [hd]; rfl, rfl⟩

theorem sound_highest (order : VersionOrder) (g : CandidateGraph) (id : ModuleId)
    (candidates : List Candidate) : Sound g id candidates (highest order g id candidates) := by
  unfold highest
  cases htop : order.maxOf (versions candidates) with
  | none => exact sound_unresolved g id candidates
  | some top =>
      have horigin : Origin g id candidates top :=
        Or.inl (mem_versions.1 (VersionOrder.mem_of_maxOf htop))
      dsimp only
      cases unmatchedRanges candidates with
      | cons u us =>
          have hsound := sound_unresolved g id (u :: us)
          refine ⟨fun v hv => ?_, fun h => (by cases h), hsound.cause, hsound.selecting⟩
          obtain rfl := Option.some.inj hv
          exact horigin
      | nil =>
          refine ⟨fun v hv => ?_, fun h => (by cases h), fun _ _ h => (by cases h),
            fun _ _ h => (by cases h)⟩
          obtain rfl := Option.some.inj hv
          split
          · exact horigin
          · cases hin : highestInRanges order g id candidates with
            | none => exact horigin
            | some w => exact origin_highestInRanges hin

theorem Sound.mono {candidates more : List Candidate} {choice : Choice}
    (hsub : ∀ c ∈ candidates, c ∈ more) (h : Sound g id candidates choice) :
    Sound g id more choice :=
  ⟨fun v hv => (h.origin v hv).mono hsub, h.error, h.cause, h.selecting⟩

theorem sound_select (order : VersionOrder) (g : CandidateGraph) (id : ModuleId)
    (candidates : SortedSet Candidate) :
    Sound g id candidates.toList (select order g id candidates) := by
  have hsub : ∀ kinds, ∀ c ∈ ofKinds kinds candidates, c ∈ candidates.toList :=
    fun kinds c hc => (mem_ofKinds.1 hc).1
  unfold select
  split
  · next f fs heq => exact (sound_agreed (by simp) (by simp)).mono (heq ▸ hsub _)
  · split
    · next f fs heq => exact (sound_agreed (by simp) (by simp)).mono (heq ▸ hsub _)
    · split
      · next p ps heq => exact (sound_highest order g id (p :: ps)).mono (heq ▸ hsub _)
      · exact (sound_highest order g id _).mono (hsub _)

end Choice

namespace Round

variable {order : VersionOrder} {g : CandidateGraph} {demands : Demands} {id : ModuleId}

theorem get?_selections (order : VersionOrder) (g : CandidateGraph) (demands : Demands)
    (id : ModuleId) : (ofDemands order g demands).selections.get? id =
      (demands.get? id).bind fun set => (choose order g id set).2 := by
  have hread := SortedMap.get?_foldl_insert
    (fun _ (x : List ResolveError × Option Selection) => x.2)
    (demands.mapValues (choose order g)) id
  rw [SortedMap.get?_mapValues, Option.bind_map] at hread
  unfold ofDemands
  refine Eq.trans (congrArg (fun f => SortedMap.get? (List.foldl f ∅
    (demands.mapValues (choose order g)).entries) id) ?_) hread
  funext m x
  obtain ⟨id, errors, _ | s⟩ := x <;> rfl

theorem mem_errors {err : ResolveError} : err ∈ (ofDemands order g demands).errors ↔
    ∃ id set, demands.get? id = some set ∧ err ∈ (choose order g id set).1 := by
  unfold ofDemands
  rw [List.mem_flatMap]
  constructor
  · rintro ⟨x, hx, herr⟩
    obtain ⟨id, hid⟩ := SortedMap.mem_values_iff.1 hx
    rw [SortedMap.get?_mapValues] at hid
    obtain ⟨set, hset, rfl⟩ := Option.map_eq_some_iff.1 hid
    exact ⟨id, set, hset, herr⟩
  · rintro ⟨id, set, hset, herr⟩
    refine ⟨choose order g id set, SortedMap.mem_values_iff.2 ⟨id, ?_⟩, herr⟩
    rw [SortedMap.get?_mapValues, hset]
    rfl

theorem get?_guide (r : Round) (id : ModuleId) :
    r.guide.get? id = (r.selections.get? id).map Selection.version :=
  SortedMap.get?_mapValues _ _ _

/-- A selection is the version chosen, with the demands on the module. -/
theorem of_choose_eq {set : SortedSet Candidate} {s : Selection}
    (h : (choose order g id set).2 = some s) :
    (Choice.select order g id set).version = some s.version ∧
      s.reason = (Choice.select order g id set).reason ∧
      s.demands = set.toList.map Candidate.demand ∧
      s.conflicted = s.demands.any fun d => !d.requirement.accepts order s.version := by
  unfold choose at h
  dsimp only at h
  cases hv : (Choice.select order g id set).version with
  | none =>
      rw [hv] at h
      cases h
  | some v =>
      rw [hv] at h
      obtain rfl := Option.some.inj h
      exact ⟨rfl, rfl, rfl, rfl⟩

theorem choose_fst_eq_of_none {set : SortedSet Candidate}
    (h : (Choice.select order g id set).version = none) :
    (choose order g id set).1 = (Choice.select order g id set).error.toList := by
  unfold choose
  dsimp only
  rw [h]

theorem choose_fst_eq {set : SortedSet Candidate} {v : String}
    (h : (Choice.select order g id set).version = some v) : (choose order g id set).1 =
      (Choice.select order g id set).error.toList ++
        (missing g id (set.toList.map Candidate.demand) v).toList := by
  unfold choose
  dsimp only
  rw [h]

theorem choose_snd_isSome_iff {set : SortedSet Candidate} :
    (choose order g id set).2.isSome = (Choice.select order g id set).version.isSome := by
  unfold choose
  dsimp only
  cases (Choice.select order g id set).version <;> rfl

theorem missing_eq_none {v : String} {d : Descriptor} (h : g.descriptor? (id.atVersion v) = some d)
    {ds : List Demand} : missing g id ds v = none := by
  obtain ⟨n, hn, hd⟩ := Option.bind_eq_some_iff.1 h
  unfold missing
  dsimp only
  rw [hn]
  cases hfinding : n.finding with
  | found d => exact congrArg (Option.map _) (congrArg Finding.miss? hfinding)
  | missing m =>
      rw [hfinding] at hd
      cases hd

/-- A module whose choice has no error has a version with metadata. -/
theorem exists_of_choose_no_errors {set : SortedSet Candidate}
    (h : (choose order g id set).1 = []) : ∃ s, (choose order g id set).2 = some s ∧
      (Choice.select order g id set).error = none ∧
      ∃ d, g.descriptor? (id.atVersion s.version) = some d := by
  cases hv : (Choice.select order g id set).version with
  | none =>
      exfalso
      refine (Choice.sound_select order g id set).error hv ?_
      rw [choose_fst_eq_of_none hv] at h
      exact Option.toList_eq_nil_iff.1 h
  | some v =>
      rw [choose_fst_eq hv] at h
      obtain ⟨herror, hmissing⟩ := List.append_eq_nil_iff.1 h
      obtain ⟨s, hs⟩ := Option.isSome_iff_exists.1
        (choose_snd_isSome_iff.trans (Option.isSome_iff_exists.2 ⟨v, hv⟩))
      have hversion := (of_choose_eq hs).1
      rw [hv] at hversion
      obtain rfl := Option.some.inj hversion
      refine ⟨s, hs, Option.toList_eq_nil_iff.1 herror, ?_⟩
      have hnone := Option.toList_eq_nil_iff.1 hmissing
      unfold missing at hnone
      dsimp only at hnone
      split at hnone
      · cases hnone
      · next n hn =>
        have hmiss := Option.map_eq_none_iff.1 hnone
        unfold CandidateGraph.descriptor?
        rw [hn]
        cases hfinding : n.finding with
        | found d => exact ⟨d, by rw [Option.bind_some, hfinding]; rfl⟩
        | missing m =>
            rw [hfinding] at hmiss
            cases hmiss

/-- A round without errors selects a version with metadata for every module demanded. -/
theorem selected_of_no_errors (h : (ofDemands order g demands).errors = [])
    {set : SortedSet Candidate} (hset : demands.get? id = some set) :
    ∃ s, (ofDemands order g demands).selections.get? id = some s ∧
      (choose order g id set).2 = some s ∧ (Choice.select order g id set).error = none ∧
      ∃ d, g.descriptor? (id.atVersion s.version) = some d := by
  have hnone : (choose order g id set).1 = [] := by
    refine List.eq_nil_iff_forall_not_mem.2 fun err herr => ?_
    have hmem := mem_errors.2 ⟨id, set, hset, herr⟩
    rw [h] at hmem
    cases hmem
  obtain ⟨s, hs, herror, hd⟩ := exists_of_choose_no_errors hnone
  refine ⟨s, ?_, hs, herror, hd⟩
  rw [get?_selections, hset]
  exact hs

/-- Only modules demanded are selected. -/
theorem exists_demands_of_selected {s : Selection}
    (h : (ofDemands order g demands).selections.get? id = some s) :
    ∃ set, demands.get? id = some set ∧ (choose order g id set).2 = some s := by
  rw [get?_selections] at h
  exact Option.bind_eq_some_iff.1 h

end Round

/-! ## Selected versions -/

namespace Resolution

/-- The selected versions and nothing else. -/
def versions (res : Resolution) : SortedMap ModuleId String :=
  res.selections.mapValues fun _ s => s.version

theorem get?_versions (res : Resolution) (id : ModuleId) :
    res.versions.get? id = res.versionOf? id :=
  SortedMap.get?_mapValues _ res.selections id

theorem versions_eq_iff {res res' : Resolution} :
    res'.versions = res.versions ↔ ∀ id, res'.versionOf? id = res.versionOf? id := by
  constructor
  · intro heq id
    rw [← get?_versions, heq, get?_versions]
  · intro h
    refine SortedMap.ext fun id => ?_
    rw [get?_versions, get?_versions, h id]

end Resolution

end Lockstep
