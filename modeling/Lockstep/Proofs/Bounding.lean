import Lockstep.Proofs.Counting
import Lockstep.Proofs.Remembering
import Mathlib.Data.List.Sections

/-!
# Rounds come to an end

Until choices repeat, every round chooses a guide that has not been chosen
before, and there are only so many guides to versions on record
(`CandidateGraph.length_le_of_guides`). From then on every round but the last
adds to what is remembered, unless it changes nothing, and there are only so many
demands (`Rounds.mem_everyDemand_of_meets`).

So rounds end if and only if they come to no round that changes nothing, and
then `Rounds.bound` suffices (`resolve_isSome_iff_of_build`). Firm demands are
enough for that. Forced demands that come to a version are not: what is preferred
may be taken over by a range that no published version is in
(`run_eq_none_over_fading`).
-/

namespace Lockstep

/-! ## Guides -/

/-- There are no more ways to take one element of each list than the product of the lengths. -/
theorem mul_length_sections_le {α : Type} (L : List (List α)) (n : Nat) :
    n * L.sections.length ≤ L.foldl (fun n l => n * l.length) n := by
  induction L generalizing n with
  | nil => exact Nat.le_of_eq (Nat.mul_one n)
  | cons l rest ih =>
      have hone : (l :: rest).sections.length = rest.sections.length * l.length := by
        simp [List.sections, List.length_flatMap]
      calc n * (l :: rest).sections.length
          = n * (rest.sections.length * l.length) := by rw [hone]
        _ = n * l.length * rest.sections.length := by
            rw [Nat.mul_assoc, Nat.mul_comm l.length]
        _ ≤ rest.foldl (fun n l => n * l.length) (n * l.length) := ih _

namespace CandidateGraph

variable {g : CandidateGraph}

/-- The modules that some version is on record of. -/
def ids (g : CandidateGraph) : SortedSet ModuleId :=
  .ofList (g.nodes.keys.map Coordinates.id)

/-- What a guide may have for a module: nothing, or a version on record. -/
def options (g : CandidateGraph) (id : ModuleId) : List (Option String) :=
  none :: (g.versionsOf id).map fun n => some n.coordinates.version

/-- How many guides there are to versions on record. -/
def guideCount (g : CandidateGraph) : Nat :=
  g.ids.toList.foldl (fun n id => n * ((g.versionsOf id).length + 1)) 1

theorem get?_mem_options (hg : g.KeepsCoordinates) {guide : Guide} (h : g.Guides guide)
    (id : ModuleId) : guide.get? id ∈ g.options id := by
  unfold options
  cases hv : guide.get? id with
  | none => exact List.mem_cons_self
  | some v =>
      obtain ⟨n, hn, hcoordinates⟩ := List.mem_map.1
        ((mem_versionsOf hg).2 ⟨rfl, h id v hv⟩ : id.atVersion v ∈ _)
      refine List.mem_cons_of_mem _ (List.mem_map.2 ⟨n, hn, ?_⟩)
      rw [hcoordinates]
      rfl

theorem get?_eq_none_of_not_mem_ids {guide : Guide} (h : g.Guides guide) {id : ModuleId}
    (hid : id ∉ g.ids) : guide.get? id = none := by
  cases hv : guide.get? id with
  | none => rfl
  | some v =>
      obtain ⟨n, hn⟩ := h id v hv
      exact absurd (SortedSet.mem_ofList.2
        (List.mem_map.2 ⟨id.atVersion v, SortedMap.mem_keys_iff.2 ⟨n, hn⟩, rfl⟩)) hid

/-- Different guides to versions on record are at most as many as there are. -/
theorem length_le_of_guides (hg : g.KeepsCoordinates) {guides : List Guide} (hnodup : guides.Nodup)
    (h : ∀ guide ∈ guides, g.Guides guide) : guides.length ≤ g.guideCount := by
  -- a guide is read off at all modules on record, since it has nothing for any other
  have hread : (guides.map fun guide => g.ids.toList.map guide.get?).Nodup := by
    refine hnodup.map_on ?_
    intro guide hguide guide' hguide' heq
    refine SortedMap.ext fun id => ?_
    by_cases hid : id ∈ g.ids
    · exact List.map_inj_left.1 heq id hid
    · rw [get?_eq_none_of_not_mem_ids (h guide hguide) hid,
        get?_eq_none_of_not_mem_ids (h guide' hguide') hid]
  have hsections : ∀ reading ∈ guides.map fun guide => g.ids.toList.map guide.get?,
      reading ∈ (g.ids.toList.map g.options).sections := by
    intro reading hreading
    obtain ⟨guide, hguide, rfl⟩ := List.mem_map.1 hreading
    rw [List.mem_sections, List.forall₂_map_left_iff, List.forall₂_map_right_iff, List.forall₂_same]
    exact fun id _ => get?_mem_options hg (h guide hguide) id
  have hcount : (g.ids.toList.map g.options).sections.length ≤ g.guideCount := by
    have hle := mul_length_sections_le (g.ids.toList.map g.options) 1
    rw [Nat.one_mul, List.foldl_map] at hle
    unfold options at hle
    simp only [List.length_cons, List.length_map] at hle
    exact hle
  have hle := (hread.subperm hsections).length_le
  rw [List.length_map] at hle
  exact hle.trans hcount

/-! ## Demands -/

/-- The versions on record that have metadata. -/
def described (g : CandidateGraph) : List (Coordinates × Descriptor) :=
  g.nodes.entries.filterMap fun x => x.2.finding.descriptor?.map fun d => (x.1, d)

/-- The constraints that versions on record publish, by force or not. -/
def publishable (g : CandidateGraph) : List Constraint :=
  g.described.flatMap fun (c, d) => d.constraints.flatMap fun k =>
    [k.asConstraint (.published c), (k.asConstraint (.published c)).force]

theorem mem_publishable {c : Coordinates} {d : Descriptor} (hd : g.descriptor? c = some d)
    {k : DeclaredConstraint} (hk : k ∈ d.constraints) (forced : Bool) :
    { k.asConstraint (.published c) with forced } ∈ g.publishable := by
  obtain ⟨n, hn, hd⟩ := Option.bind_eq_some_iff.1 hd
  have hdescribed : (c, d) ∈ g.described :=
    List.mem_filterMap.2 ⟨(c, n), SortedMap.mem_entries_iff.2 hn, by rw [hd]; rfl⟩
  refine List.mem_flatMap.2 ⟨(c, d), hdescribed, List.mem_flatMap.2 ⟨k, hk, ?_⟩⟩
  cases forced with
  | false => exact List.mem_cons_self
  | true => exact List.mem_cons_of_mem _ List.mem_cons_self

theorem length_publishable_le (g : CandidateGraph) : g.publishable.length ≤
    2 * ((g.nodes.values.filterMap (·.finding.descriptor?)).flatMap (·.constraints)).length := by
  have hvalues : g.nodes.values.filterMap (·.finding.descriptor?) = g.described.map Prod.snd := by
    unfold described SortedMap.values
    rw [List.map_filterMap, List.filterMap_map]
    refine congrFun (congrArg List.filterMap (funext fun x => ?_)) _
    rw [Option.map_map]
    exact Option.map_id'.symm
  have htwo : ∀ x ∈ g.described, (x.2.constraints.flatMap fun k =>
      [k.asConstraint (.published x.1), (k.asConstraint (.published x.1)).force]).length ≤
        x.2.constraints.length * 2 := by
    intro x _
    simp [List.length_flatMap]
  calc g.publishable.length
      ≤ (g.described.map fun x => x.2.constraints.length * 2).sum := length_flatMap_le htwo
    _ = (g.described.map fun x => x.2.constraints.length).sum * 2 := List.sum_map_mul_right _ _ 2
    _ = 2 *
        ((g.nodes.values.filterMap (·.finding.descriptor?)).flatMap (·.constraints)).length := by
        rw [List.length_flatMap, hvalues, List.map_map, Nat.mul_comm]
        rfl

end CandidateGraph

namespace Rounds

variable {order : VersionOrder} {g : CandidateGraph} {constraints : SortedSet Constraint}
  {r : Rounds} {memory : Demands}

/-- Every demand that a round over the graph may meet, with its module. -/
def everyDemand (g : CandidateGraph) (constraints : SortedSet Constraint) :
    List (ModuleId × Candidate) :=
  g.edges.toList.map (fun edge => (edge.target, Demands.ofEdge g edge)) ++
    (constraints.toList ++ g.publishable).map fun k => (k.target, Demands.ofConstraint g k)

theorem mem_everyDemand_of_gather {guide : Guide} {live : Live} (hwalk : walk g guide = some live)
    {id : ModuleId} {set : SortedSet Candidate}
    (hset : (Demands.gather g live guide constraints).get? id = some set) {c : Candidate}
    (hc : c ∈ set) : (id, c) ∈ everyDemand g constraints := by
  unfold everyDemand
  rw [List.mem_append]
  rcases (Demands.mem_of_get?_gather hset).1 hc with
    ⟨es, hes, e, he, edge, hedge, rfl⟩ | ⟨k, hk, -, rfl, rfl⟩
  · obtain ⟨edge', hedge', rfl, -⟩ := (Live.mem_of_get?_incoming hwalk hes).1 he
    obtain rfl := Option.some.inj (hedge.symm.trans hedge')
    exact Or.inl (List.mem_map.2
      ⟨edge, Array.mem_toList_iff.2 (Array.mem_of_getElem? hedge), rfl⟩)
  · refine Or.inr (List.mem_map.2 ⟨k, List.mem_append.2 ?_, rfl⟩)
    rcases Demands.mem_applied.1 hk with hk | ⟨c, -, d, hd, k', hk', rfl⟩
    · exact Or.inl hk
    · exact Or.inr (CandidateGraph.mem_publishable hd hk' _)

theorem mem_everyDemand_of_meets {id : ModuleId} {c : Candidate}
    (h : Meets order g constraints id c) : (id, c) ∈ everyDemand g constraints := by
  obtain ⟨r, live, set, -, hwalk, hset, hc⟩ := h
  exact mem_everyDemand_of_gather hwalk hset hc

/-- How many demands a round does not recall. -/
def unlearned (g : CandidateGraph) (constraints : SortedSet Constraint) (r : Rounds) : Nat :=
  ((everyDemand g constraints).map fun x => if x.2 ∈ r.recalled x.1 then 0 else 1).sum

theorem unlearned_le (g : CandidateGraph) (constraints : SortedSet Constraint) (r : Rounds) :
    r.unlearned g constraints ≤ (everyDemand g constraints).length := by
  unfold unlearned
  refine (List.sum_le_card_nsmul _ 1 fun n hn => ?_).trans ?_
  · obtain ⟨x, -, rfl⟩ := List.mem_map.1 hn
    split
    · exact Nat.zero_le 1
    · exact Nat.le_refl 1
  · simp

/-- Where the next round recalls more, less is left to learn. -/
theorem unlearned_lt_of_recallsMore {next : Rounds} (hnext : Reached order g constraints next)
    (h : next.RecallsMore r) : next.unlearned g constraints < r.unlearned g constraints := by
  obtain ⟨id, c, hc, hnew⟩ := h.more
  refine List.sum_lt_sum _ _ (fun x _ => ?_)
    ⟨(id, c), mem_everyDemand_of_meets (meets_of_recalled hnext hc), ?_⟩
  · by_cases hx : x.2 ∈ r.recalled x.1
    · rw [if_pos (h.all x.1 x.2 hx), if_pos hx]
    · rw [if_neg hx]
      split
      · exact Nat.zero_le 1
      · exact Nat.le_refl 1
  · rw [if_neg hnew, if_pos hc]
    exact Nat.zero_lt_one

/-! ## The bound -/

theorem step_isSome (order : VersionOrder) (g : CandidateGraph) (constraints : SortedSet Constraint)
    (r : Rounds) : (r.step order g constraints).isSome = true := by
  obtain ⟨live, hwalk⟩ := Option.isSome_iff_exists.1 (walk_isSome g r.guide)
  rw [step_eq order g constraints r hwalk]
  split <;> rfl

/-- How many more rounds there may be. -/
def remaining (g : CandidateGraph) (constraints : SortedSet Constraint) (r : Rounds) : Nat :=
  match r.remembered with
  | none => g.guideCount - r.history.length + (everyDemand g constraints).length + 1
  | some _ => r.unlearned g constraints

section

variable {R : Region}
  (hg : g.KeepsCoordinates)
  (h : Coverage g R (constraints.toList.map fun k => ⟨k.target, k.requirement⟩))

include hg h

/-- Until rounds remember, they have chosen different guides, all to versions on record. -/
theorem history_of_reached (hr : Reached order g constraints r) (hnone : r.remembered = none) :
    r.history.Nodup ∧ ∀ guide ∈ r.history, g.Guides guide := by
  induction hr with
  | first => exact ⟨List.nodup_nil, fun guide hguide => by cases hguide⟩
  | @again r next hr hstep ih =>
      have hguides := (provided_of_reached hg h (hr.again hstep)).guides
      obtain ⟨live, -, rfl⟩ := exists_of_step_eq_again hstep
      cases hbefore : r.remembered with
      | some memory =>
          -- what is remembered is never forgotten
          rw [next_of_some hbefore] at hnone
          cases hnone
      | none =>
          rw [next_of_none hbefore] at hnone hguides ⊢
          dsimp only at hnone hguides ⊢
          obtain ⟨hnodup, hall⟩ := ih hbefore
          split at hnone
          · cases hnone
          · next hnew =>
            refine ⟨List.nodup_cons.2 ⟨hnew, hnodup⟩, fun guide hguide => ?_⟩
            rcases List.mem_cons.1 hguide with rfl | hguide
            · exact hguides
            · exact hall guide hguide

/-- A round that is not the last and does not repeat leaves fewer to come. -/
theorem remaining_next_lt (hr : Reached order g constraints r) {next : Rounds}
    (hstep : r.step order g constraints = some (.again next))
    (hnot : ¬r.Repeats order g constraints) :
    next.remaining g constraints < r.remaining g constraints := by
  have hhistory := history_of_reached hg h (hr.again hstep)
  obtain ⟨live, -, hnext⟩ := exists_of_step_eq_again hstep
  cases hmemory : r.remembered with
  | some memory =>
      have hmore : next.RecallsMore r := (eq_or_recallsMore hr hmemory hstep).resolve_left
        fun heq => hnot (heq ▸ hstep : r.step order g constraints = some (.again r))
      have hlt := unlearned_lt_of_recallsMore (hr.again hstep) hmore
      rw [next_of_some hmemory] at hnext
      unfold remaining
      rw [hmemory, hnext]
      rw [hnext] at hlt
      exact hlt
  | none =>
      -- either memory starts now, or one more of the guides there are is used up
      subst hnext
      rw [next_of_none hmemory] at hhistory ⊢
      dsimp only at hhistory
      unfold remaining
      rw [hmemory]
      by_cases hseen : (Round.ofDemands order g (r.gathered g constraints live)).guide ∈ r.history
      · rw [if_pos hseen]
        have hle := unlearned_le g constraints
          ⟨(Round.ofDemands order g (r.gathered g constraints live)).guide,
            (Round.ofDemands order g (r.gathered g constraints live)).guide :: r.history,
            some (r.gathered g constraints live)⟩
        dsimp only
        omega
      · rw [if_neg hseen] at hhistory ⊢
        obtain ⟨hnodup, hall⟩ := hhistory rfl
        have hle := CandidateGraph.length_le_of_guides hg hnodup hall
        rw [List.length_cons] at hle
        dsimp only
        rw [List.length_cons]
        omega

/-- Rounds that do not repeat come to an end. -/
theorem run_isSome (hnot : ∀ r, Reached order g constraints r → ¬r.Repeats order g constraints)
    (rounds : Nat) (hr : Reached order g constraints r) (hlt : r.remaining g constraints < rounds) :
    (r.run order g constraints rounds).isSome = true := by
  induction rounds generalizing r with
  | zero => cases hlt
  | succ rounds ih =>
      unfold run
      cases hstep : r.step order g constraints with
      | none =>
          have hsome := step_isSome order g constraints r
          rw [hstep] at hsome
          cases hsome
      | some progress =>
          cases progress with
          | settled live round => rfl
          | again next =>
              have hless := remaining_next_lt hg h hr hstep (hnot r hr)
              exact ih (hr.again hstep) (by omega)

end

theorem remaining_first_lt (g : CandidateGraph) (constraints : SortedSet Constraint) :
    ({} : Rounds).remaining g constraints < bound g constraints := by
  have hpublishable := CandidateGraph.length_publishable_le g
  have hdemands : (everyDemand g constraints).length =
      g.edges.size + (constraints.size + g.publishable.length) := by
    unfold everyDemand
    rw [List.length_append, List.length_map, List.length_map, List.length_append]
    rfl
  have hbound : bound g constraints = g.guideCount + 2 * (g.edges.size + constraints.size +
      ((g.nodes.values.filterMap (·.finding.descriptor?)).flatMap (·.constraints)).length) + 4 :=
    rfl
  have hremaining : ({} : Rounds).remaining g constraints =
      g.guideCount - 0 + (everyDemand g constraints).length + 1 := rfl
  omega

end Rounds

/-- Rounds over what the builder comes to end, within the bound, if none of them changes nothing.
Those that remember recall more each time, unless one is the last or changes nothing; and where
demands are firm, none does. -/
theorem resolve_isSome_iff_of_build {σ : Type} {lookup : Lookup σ} {rules : PlatformRules}
    {root : Coordinates} {dependencies : List Dependency} {constraints : SortedSet Constraint}
    {levels : Nat} {s s' : σ} {g : CandidateGraph} (order : VersionOrder)
    (hbuild : ((Builder.start root dependencies constraints).run lookup rules levels).run s =
      (some g, s')) :
    (∀ r memory next, Rounds.Reached order g constraints r → r.remembered = some memory →
      r.step order g constraints = some (.again next) → next = r ∨ next.RecallsMore r) ∧
    ((∃ rounds, (Rounds.run order g constraints rounds {}).isSome = true) ↔
      ∀ r, Rounds.Reached order g constraints r → ¬r.Repeats order g constraints) ∧
    ((∃ rounds, (Rounds.run order g constraints rounds {}).isSome = true) ↔
      (resolve order g constraints).isSome = true) ∧
    (Rounds.Firm order g constraints → (resolve order g constraints).isSome = true) := by
  obtain ⟨b, rfl, hdone, htidy⟩ := Builder.tidy_of_run hbuild
  have hresolve : (resolve order b.graph constraints).isSome =
      (Rounds.run order b.graph constraints (Rounds.bound b.graph constraints) {}).isSome :=
    Option.isSome_map
  have hsuffices (hnot : ∀ r, Rounds.Reached order b.graph constraints r →
      ¬r.Repeats order b.graph constraints) :
    (resolve order b.graph constraints).isSome = true := by
    rw [hresolve]
    exact Rounds.run_isSome htidy.arena.coordinates (htidy.coverage hdone) hnot _ .first
      (Rounds.remaining_first_lt b.graph constraints)
  have hneeds (hends : ∃ rounds,
      (Rounds.run order b.graph constraints rounds {}).isSome = true) :
      ∀ r, Rounds.Reached order b.graph constraints r → ¬r.Repeats order b.graph constraints := by
    intro r hr hrepeats
    obtain ⟨rounds, hrun⟩ := hends
    rw [Rounds.run_first_eq_none hr (Rounds.run_eq_none_of_repeats hrepeats)] at hrun
    cases hrun
  have hbound (h : (resolve order b.graph constraints).isSome = true) :
      ∃ rounds, (Rounds.run order b.graph constraints rounds {}).isSome = true :=
    ⟨_, hresolve ▸ h⟩
  refine ⟨?_, ?_, ?_, ?_⟩
  · exact fun r memory next hr hmemory hstep => Rounds.eq_or_recallsMore hr hmemory hstep
  · exact ⟨hneeds, fun hnot => hbound (hsuffices hnot)⟩
  · exact ⟨fun hends => hsuffices (hneeds hends), hbound⟩
  · exact fun hfirm => hsuffices fun r hr => Rounds.not_repeats_of_firm hfirm hr

/-! ### A preference that a range takes over -/

namespace Sample

/-- The choices of `auth` and `base` go round in circles. Once demands are remembered, `base` stays
at its newer version and asks for a range that `core` has no version in. -/
def fading : Catalog :=
  ⟨[describe "auth" "1" [],
    describe "auth" "2" [] [⟨id "base", .exact "2"⟩],
    describe "base" "1" [dependency "auth" "2"],
    describe "base" "2" [rangeOf "core" "5" "6"],
    describe "core" "1" []]⟩

/-- What the builder comes to for `fading`, where the root asks for `core` too. -/
def fadingBuild (core : Requirement) : Option CandidateGraph × Unit :=
  ((Builder.start root
    [dependency "auth" "1", dependency "base" "1",
      { target := id "core", requirement := core }] ∅).run
    (fading.provider Version.semanticOrder).lookup [] 8).run ()

end Sample

theorem resolve_isSome_over_fading : ∃ g r, Sample.fadingBuild (.exact "1") = (some g, ()) ∧
    Rounds.Reached Version.semanticOrder g ∅ r ∧ r.remembered.isSome = true ∧
    Rounds.Firm Version.semanticOrder g ∅ ∧
    (resolve Version.semanticOrder g ∅).isSome = true := by
  have hfound : ((Sample.fadingBuild (.exact "1")).1.any fun g =>
      (Rounds.after Version.semanticOrder g ∅ 5 {}).any fun r =>
        r.remembered.isSome = true ∧ ∀ x ∈ Rounds.everyDemand g ∅,
          (x.2.demand.kind = .forcedEdge ∨ x.2.demand.kind = .forcedConstraint →
            x.2.version? ≠ none) ∧ x.2.demand.kind ≠ .preference) = true := by
    decide +kernel
  obtain ⟨g, hg, hreached⟩ := (Option.any_eq_true _ _).1 hfound
  obtain ⟨r, hafter, hcond⟩ := (Option.any_eq_true _ _).1 hreached
  obtain ⟨hremembered, hdemands⟩ := of_decide_eq_true hcond
  have hbuild : Sample.fadingBuild (.exact "1") = (some g, ()) := by
    rw [← hg]
  have hfirm : Rounds.Firm Version.semanticOrder g ∅ := by
    constructor
    · exact fun id c hc => (hdemands _ (Rounds.mem_everyDemand_of_meets hc)).1
    · exact fun id c hc hkind =>
        absurd hkind (hdemands _ (Rounds.mem_everyDemand_of_meets hc)).2
  obtain ⟨-, -, -, hends⟩ := resolve_isSome_iff_of_build Version.semanticOrder hbuild
  exact ⟨g, r, hbuild, Rounds.reached_of_after .first hafter, hremembered, hfirm, hends hfirm⟩

/-- Forced demands all come to a version, and rounds do not end. -/
theorem run_eq_none_over_fading : ∃ g, Sample.fadingBuild (.prefer "1") = (some g, ()) ∧
    (∀ id c, Rounds.Meets Version.semanticOrder g ∅ id c →
      c.demand.kind = .forcedEdge ∨ c.demand.kind = .forcedConstraint → c.version? ≠ none) ∧
    ∀ rounds, Rounds.run Version.semanticOrder g ∅ rounds {} = none := by
  have hfound : ((Sample.fadingBuild (.prefer "1")).1.any fun g =>
      (Rounds.after Version.semanticOrder g ∅ 6 {}).any fun r =>
        (r.remembered.isSome = true ∧
          (walk g r.guide).any (fun live => !r.learns (.gather g live r.guide ∅)) = true ∧
          (Rounds.following (r.step Version.semanticOrder g ∅)).isSome = true) ∧
        ∀ x ∈ Rounds.everyDemand g ∅,
          x.2.demand.kind = .forcedEdge ∨ x.2.demand.kind = .forcedConstraint →
            x.2.version? ≠ none) = true := by
    decide +kernel
  obtain ⟨g, hg, hreached⟩ := (Option.any_eq_true _ _).1 hfound
  obtain ⟨r, hafter, hcond⟩ := (Option.any_eq_true _ _).1 hreached
  obtain ⟨⟨hremembered, hwalked, hgoes⟩, hforced⟩ := of_decide_eq_true hcond
  have hreached : Rounds.Reached Version.semanticOrder g ∅ r :=
    Rounds.reached_of_after .first hafter
  have hrepeats : r.Repeats Version.semanticOrder g ∅ := by
    obtain ⟨memory, hmemory⟩ := Option.isSome_iff_exists.1 hremembered
    obtain ⟨live, hwalk, hlearns⟩ := (Option.any_eq_true _ _).1 hwalked
    obtain ⟨next, hnext⟩ := Option.isSome_iff_exists.1 hgoes
    exact Rounds.repeats_of_learns_eq_false hreached hmemory hwalk (Bool.not_eq_true' _ ▸ hlearns)
      (Rounds.following_eq_some_iff.1 hnext)
  refine ⟨g, by rw [← hg], ?_, ?_⟩
  · exact fun id c hc => hforced _ (Rounds.mem_everyDemand_of_meets hc)
  · exact Rounds.run_first_eq_none hreached (Rounds.run_eq_none_of_repeats hrepeats)

end Lockstep
