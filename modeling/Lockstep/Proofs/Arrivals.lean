import Lockstep.Proofs.Building
import Lockstep.Proofs.Walk
import Lockstep.Version.Segments
import Mathlib.Logic.Relation

/-!
# Arrivals in any order

A walk that takes some pending arrival at each step, whichever it is (`Walk.Takes`), comes to an end
(`Walk.acc_takes`), and where it ends it has reached the least closed region. What the ways inside a
region lead to is a region again (`Region.Leads`). It lies in the first one if and only if that is
closed (`Region.Leads.le_iff_closed`), and grows with it (`Region.Leads.mono`). So the least closed
region is what its own ways lead to: its modules have the exclusions that all ways to them share,
and of all regions of this kind it has the fewest versions and the most exclusions
(`walk_in_any_order`).
-/

namespace Lockstep

/-! ## Equations -/

namespace Region

variable {g : CandidateGraph} {guide : Guide} {R S : Region}

/-- The edges that are followed inside a region, with the exclusions of the way to their target:
those of the root, and those of versions whose module does not exclude the target. -/
inductive Way (R : Region) (g : CandidateGraph) : Edge → Exclusions → Prop
  | root {e : EdgeId} {edge : Edge} (he : e ∈ g.rootEdges) (hedge : g.edge? e = some edge) :
      Way R g edge edge.dependency.exclusions
  | onward {c : Coordinates} {set : Exclusions} {e : EdgeId} {edge : Edge} (hc : R.nodes c)
      (hset : R.exclusions c.id = some set) (he : e ∈ g.outgoing c)
      (hedge : g.edge? e = some edge) (hopen : set.exclude edge.target = false) :
      Way R g edge (set.union edge.dependency.exclusions)

/-- `S` is what the ways inside `R` lead to: the versions at their ends, and for each module at the
end of one the exclusions that all ways to it share. -/
structure Leads (R : Region) (g : CandidateGraph) (guide : Guide) (S : Region) : Prop where
  nodes : ∀ c, S.nodes c ↔ ∃ edge inherited, R.Way g edge inherited ∧ edge.target = c.id ∧
    edge.version? guide = some c.version
  reached : ∀ t, (∃ set, S.exclusions t = some set) ↔
    ∃ edge inherited, R.Way g edge inherited ∧ edge.target = t
  shared : ∀ t set, S.exclusions t = some set → ∀ x, x ∈ set ↔
    ∀ edge inherited, R.Way g edge inherited → edge.target = t → x ∈ inherited

/-- The region is what its own ways lead to. -/
def Solves (R : Region) (g : CandidateGraph) (guide : Guide) : Prop :=
  R.Leads g guide R

theorem exists_shared (R : Region) (g : CandidateGraph) (t : ModuleId) : ∃ o : Option Exclusions,
    ((∃ set, o = some set) ↔ ∃ edge inherited, R.Way g edge inherited ∧ edge.target = t) ∧
    ∀ set, o = some set → ∀ x, x ∈ set ↔
      ∀ edge inherited, R.Way g edge inherited → edge.target = t → x ∈ inherited := by
  classical
  by_cases h : ∃ edge inherited, R.Way g edge inherited ∧ edge.target = t
  · obtain ⟨edge, inherited, hway, ht⟩ := h
    refine ⟨some (inherited.filter fun x => decide (∀ edge inherited, R.Way g edge inherited →
      edge.target = t → x ∈ inherited)), ⟨fun _ => ⟨edge, inherited, hway, ht⟩, fun _ => ⟨_, rfl⟩⟩,
      ?_⟩
    intro set hset x
    rw [← Option.some.inj hset, SortedSet.mem_filter, decide_eq_true_eq]
    exact and_iff_right_of_imp fun hall => hall edge inherited hway ht
  · refine ⟨none, ⟨?_, fun hway => absurd hway h⟩, ?_⟩
    · rintro ⟨_, hset⟩
      cases hset
    · intro _ hset
      cases hset

theorem exists_leads (R : Region) (g : CandidateGraph) (guide : Guide) :
    ∃ S, R.Leads g guide S := by
  choose exclusions hreached hshared using R.exists_shared g
  exact ⟨⟨_, exclusions⟩, fun _ => Iff.rfl, hreached, hshared⟩

theorem closed_iff : R.Closed g guide ↔
    ∀ edge inherited, R.Way g edge inherited →
      R.Arrives edge.target (edge.version? guide) inherited := by
  constructor
  · intro h edge inherited hway
    cases hway with
    | root he hedge => exact h.root _ he _ hedge
    | onward hc hset he hedge hopen => exact h.onward _ hc _ hset _ he _ hedge hopen
  · intro h
    exact ⟨fun e he edge hedge => h edge _ (.root he hedge),
      fun c hc set hset e he edge hedge hopen => h edge _ (.onward hc hset he hedge hopen)⟩

/-- What the ways inside a region lead to is inside if and only if the region is closed. -/
theorem Leads.le_iff_closed (h : R.Leads g guide S) : S.Le R ↔ R.Closed g guide := by
  rw [closed_iff]
  constructor
  · intro hle edge inherited hway
    obtain ⟨set, hset⟩ := (h.reached edge.target).2 ⟨edge, inherited, hway, rfl⟩
    obtain ⟨least, hleast, hsub⟩ := hle.exclusions _ set hset
    refine ⟨least, hleast, fun x hx => ?_, fun v hv => ?_⟩
    · exact (h.shared _ set hset x).1 (hsub x hx) edge inherited hway rfl
    · exact hle.nodes _ ((h.nodes _).2 ⟨edge, inherited, hway, rfl, hv⟩)
  · intro hclosed
    refine ⟨fun c hc => ?_, fun t set hset => ?_⟩
    · obtain ⟨edge, inherited, hway, ht, hv⟩ := (h.nodes c).1 hc
      obtain ⟨-, -, -, hnode⟩ := hclosed edge inherited hway
      have hc' := hnode c.version hv
      rwa [ht] at hc'
    · obtain ⟨edge, inherited, hway, rfl⟩ := (h.reached t).1 ⟨set, hset⟩
      obtain ⟨least, hleast, -⟩ := hclosed edge inherited hway
      refine ⟨least, hleast, fun x hx => (h.shared _ set hset x).2 ?_⟩
      intro edge' inherited' hway' ht
      obtain ⟨least', hleast', hsub, -⟩ := hclosed edge' inherited' hway'
      rw [ht, hleast] at hleast'
      obtain rfl := Option.some.inj hleast'
      exact hsub x hx

/-- In a greater region an edge is still followed, and the way to it has no more exclusions. -/
theorem Way.mono (hle : R.Le S) {edge : Edge} {inherited : Exclusions}
    (h : R.Way g edge inherited) : ∃ fewer, S.Way g edge fewer ∧ fewer ⊆ inherited := by
  cases h with
  | root he hedge => exact ⟨_, .root he hedge, SortedSet.Subset.refl _⟩
  | onward hc hset he hedge hopen =>
      obtain ⟨least, hleast, hsub⟩ := hle.exclusions _ _ hset
      exact ⟨_, .onward (hle.nodes _ hc) hleast he hedge
        (Exclusions.exclude_eq_false_of_subset hsub hopen), SortedSet.union_subset_union hsub⟩

/-- The ways inside a greater region lead to a greater one. -/
theorem Leads.mono {R' S' : Region} (h : R.Leads g guide S) (h' : R'.Leads g guide S')
    (hle : R.Le R') : S.Le S' := by
  refine ⟨fun c hc => ?_, fun t set hset => ?_⟩
  · obtain ⟨edge, inherited, hway, hend⟩ := (h.nodes c).1 hc
    obtain ⟨fewer, hway', -⟩ := hway.mono hle
    exact (h'.nodes c).2 ⟨edge, fewer, hway', hend⟩
  · obtain ⟨edge, inherited, hway, ht⟩ := (h.reached t).1 ⟨set, hset⟩
    obtain ⟨fewer, hway', -⟩ := hway.mono hle
    obtain ⟨set', hset'⟩ := (h'.reached t).2 ⟨edge, fewer, hway', ht⟩
    refine ⟨set', hset', fun x hx => (h.shared t set hset x).2 fun edge inherited hway ht => ?_⟩
    obtain ⟨fewer, hway', hsub⟩ := hway.mono hle
    exact hsub x ((h'.shared t set' hset' x).1 hx edge fewer hway' ht)

theorem Solves.closed (h : R.Solves g guide) : R.Closed g guide :=
  Leads.le_iff_closed h |>.1 (le_refl R)

/-- The least closed region is what its own ways lead to. -/
theorem solves_of_least (hclosed : R.Closed g guide)
    (hleast : ∀ S : Region, S.Closed g guide → R.Le S) : R.Solves g guide := by
  obtain ⟨S, hS⟩ := R.exists_leads g guide
  obtain ⟨T, hT⟩ := S.exists_leads g guide
  have hle : S.Le R := hS.le_iff_closed.2 hclosed
  have hclosed' : S.Closed g guide := hT.le_iff_closed.1 (hT.mono hS hle)
  obtain rfl := le_antisymm hle (hleast S hclosed')
  exact hS

end Region

/-! ## Orders -/

namespace Walk

variable {g : CandidateGraph} {guide : Guide} {w w' : Walk}

/-- Some pending arrival is taken. -/
def Takes (g : CandidateGraph) (guide : Guide) (w w' : Walk) : Prop :=
  ∃ before e inherited after, w.pending = before ++ (e, inherited) :: after ∧
    w' = { w with pending := before ++ after }.arrive g guide e inherited

theorem exists_takes_iff : (∃ w', Takes g guide w w') ↔ w.pending ≠ [] := by
  constructor
  · rintro ⟨_, before, e, inherited, after, hpending, -⟩ hnil
    rw [hnil] at hpending
    simp at hpending
  · intro hne
    obtain ⟨⟨e, inherited⟩, rest, hpending⟩ := List.exists_cons_of_ne_nil hne
    exact ⟨_, [], e, inherited, rest, hpending, rfl⟩

/-- The arrival taken may as well have been the first one. -/
theorem Takes.exists_first (h : Takes g guide w w') : ∃ e inherited rest,
    w.pending.Perm ((e, inherited) :: rest) ∧
      w' = { w with pending := rest }.arrive g guide e inherited := by
  obtain ⟨before, e, inherited, after, hpending, rfl⟩ := h
  refine ⟨e, inherited, before ++ after, ?_, rfl⟩
  rw [hpending]
  exact List.perm_middle

variable {pending : List (EdgeId × Exclusions)}

theorem Within.perm {R : Region} (hw : Within g guide R w) (hperm : w.pending.Perm pending) :
    Within g guide R { w with pending } :=
  ⟨hw.region, fun e inherited hmem => hw.pending e inherited (hperm.mem_iff.2 hmem)⟩

theorem Owed.perm (hw : Owed g guide w) (hperm : w.pending.Perm pending) :
    Owed g guide { w with pending } := by
  refine ⟨hw.reached, fun e he edge hedge => ?_, fun c hc set hset e he edge hedge hopen => ?_⟩
  · exact (hw.root e he edge hedge).imp_left hperm.mem_iff.1
  · exact (hw.onward c hc set hset e he edge hedge hopen).imp_left hperm.mem_iff.1

theorem Mentions.perm (hw : Mentions g w) (hperm : w.pending.Perm pending) :
    Mentions g { w with pending } :=
  ⟨hw.exclusions, fun e inherited hmem => hw.pending e inherited (hperm.mem_iff.2 hmem)⟩

theorem work_perm (hperm : w.pending.Perm pending) : work g { w with pending } = work g w := by
  unfold work
  rw [hperm.length_eq]
  rfl

theorem Within.takes {R : Region} (hR : R.Closed g guide) (hw : Within g guide R w)
    (h : Takes g guide w w') : Within g guide R w' := by
  obtain ⟨e, inherited, rest, hperm, rfl⟩ := h.exists_first
  exact within_arrive (w := { w with pending := (e, inherited) :: rest }) hR rfl (hw.perm hperm)

theorem Owed.takes (hw : Owed g guide w) (h : Takes g guide w w') : Owed g guide w' := by
  obtain ⟨e, inherited, rest, hperm, rfl⟩ := h.exists_first
  exact owed_arrive (w := { w with pending := (e, inherited) :: rest }) rfl (hw.perm hperm)

theorem Mentions.takes (hw : Mentions g w) (h : Takes g guide w w') :
    Mentions g w' ∧ work g w' < work g w := by
  obtain ⟨e, inherited, rest, hperm, rfl⟩ := h.exists_first
  let first : Walk := { w with pending := (e, inherited) :: rest }
  have hfirst : Mentions g first := hw.perm hperm
  refine ⟨mentions_arrive (w := first) rfl hfirst, ?_⟩
  rw [← work_perm hperm]
  exact work_arrive (w := first) rfl hfirst

/-- No order of arrivals goes on for ever. -/
theorem acc_takes (hw : Mentions g w) : Acc (fun w' w => Takes g guide w w') w := by
  induction hwork : work g w using Nat.strongRecOn generalizing w with
  | _ n ih =>
      refine ⟨_, fun w' h => ?_⟩
      obtain ⟨hw', hless⟩ := hw.takes h
      exact ih (work g w') (hwork ▸ hless) hw' rfl

/-- Whatever the order of arrivals, a walk that is over has reached the live graph. -/
theorem ofWalk_eq_of_takes {live : Live} (hlive : walk g guide = some live)
    (h : Relation.ReflTransGen (Takes g guide) (start g) w) (hdone : w.pending = []) :
    Live.ofWalk g w = live := by
  have hclosed := closed_of_walk hlive
  have hwithin : Within g guide live.region w := by
    clear hdone
    induction h with
    | refl => exact within_start hclosed
    | tail _ htakes ih => exact ih.takes hclosed htakes
  have howed : Owed g guide w := by
    clear hdone hwithin
    induction h with
    | refl => exact owed_start
    | tail _ htakes ih => exact ih.takes htakes
  have hregion := Region.le_antisymm hwithin.region (le_of_walk hlive (howed.closed hdone))
  obtain ⟨w', -, rfl⟩ := walk_eq_some hlive
  have hnodes : w.nodes = w'.nodes := SortedSet.ext fun c => iff_of_eq (congrFun
    (congrArg Region.nodes hregion) c)
  have hexclusions : w.exclusions = w'.exclusions := SortedMap.ext fun id => congrFun
    (congrArg Region.exclusions hregion) id
  unfold Live.ofWalk
  rw [hnodes, hexclusions]

end Walk

/-- A walk may take what is pending in any order: it comes to an end, and what it ends with is the
live graph. The versions there are those that an edge leads to which is followed, the modules are
the targets of these edges, and the exclusions of a module are those that all ways to it share. Of
all regions that satisfy these equations, it has the fewest versions and the most exclusions. -/
theorem walk_in_any_order (g : CandidateGraph) (guide : Guide) :
    Acc (fun w' w => Walk.Takes g guide w w') (Walk.start g) ∧
    ∃ live, walk g guide = some live ∧
      (∀ w, Relation.ReflTransGen (Walk.Takes g guide) (Walk.start g) w →
        (∀ w', ¬Walk.Takes g guide w w') → Live.ofWalk g w = live) ∧
      live.region.Solves g guide ∧ ∀ R : Region, R.Solves g guide → live.region.Le R := by
  refine ⟨Walk.acc_takes Walk.mentions_start, ?_⟩
  obtain ⟨live, hlive⟩ := Option.isSome_iff_exists.1 (walk_isSome g guide)
  refine ⟨live, hlive, fun w hw hstuck => ?_, ?_, fun R hR => le_of_walk hlive hR.closed⟩
  · have hdone : w.pending = [] := by
      by_contra hne
      obtain ⟨w', hw'⟩ := Walk.exists_takes_iff.2 hne
      exact hstuck w' hw'
    exact Walk.ofWalk_eq_of_takes hlive hw hdone
  · exact Region.solves_of_least (closed_of_walk hlive) fun S hS => le_of_walk hlive hS

namespace Walk

variable {g : CandidateGraph} {guide : Guide} {w w' : Walk}

/-- Some steps of a walk that takes what became pending last. -/
def lastFirst (g : CandidateGraph) (guide : Guide) : Nat → Walk → Walk
  | 0, w => w
  | steps + 1, w =>
    match w.pending.getLast? with
    | none => w
    | some (e, inherited) =>
      lastFirst g guide steps
        ({ w with pending := w.pending.dropLast }.arrive g guide e inherited)

theorem leads_lastFirst (steps : Nat) (w : Walk) :
    Relation.ReflTransGen (Takes g guide) w (w.lastFirst g guide steps) := by
  induction steps generalizing w with
  | zero => exact .refl
  | succ steps ih =>
      unfold lastFirst
      split
      · exact .refl
      · next e inherited hlast =>
        refine .head ⟨w.pending.dropLast, e, inherited, [], ?_, ?_⟩ (ih _)
        · exact (List.dropLast_append_getLast? _ hlast).symm
        · rw [List.append_nil]

end Walk

namespace Sample

def reopenedGraph : CandidateGraph :=
  (((Builder.start root reopened ∅).run (reopening.provider Version.segmentOrder).lookup [] 4).run
    ()).1.getD { root }

end Sample

/-- `auth` is reached through `base` before the edge is taken that excludes `core`. -/
theorem walk_in_any_order_over_reopened : ∃ w live,
    Relation.ReflTransGen (Walk.Takes Sample.reopenedGraph ∅)
      (Walk.start Sample.reopenedGraph) w ∧
    (∀ w', ¬Walk.Takes Sample.reopenedGraph ∅ w w') ∧
    walk Sample.reopenedGraph ∅ = some live ∧ Live.ofWalk Sample.reopenedGraph w = live ∧
    live.region.Solves Sample.reopenedGraph ∅ ∧
    (Sample.id "core").atVersion "1" ∈ live.nodes := by
  obtain ⟨w, hleads, hpending, hcore⟩ : ∃ w,
      Relation.ReflTransGen (Walk.Takes Sample.reopenedGraph ∅)
        (Walk.start Sample.reopenedGraph) w ∧
      w.pending = [] ∧ (Sample.id "core").atVersion "1" ∈ w.nodes :=
    ⟨_, Walk.leads_lastFirst 8 _, by decide +kernel, by decide +kernel⟩
  have hstuck : ∀ w', ¬Walk.Takes Sample.reopenedGraph ∅ w w' :=
    fun w' hw' => Walk.exists_takes_iff.1 ⟨w', hw'⟩ hpending
  obtain ⟨-, live, hlive, hends, hsolves, -⟩ := walk_in_any_order Sample.reopenedGraph ∅
  obtain rfl := hends w hleads hstuck
  exact ⟨w, _, hleads, hstuck, hlive, rfl, hsolves, hcore⟩

end Lockstep
