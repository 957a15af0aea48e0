import Lockstep.Proofs.Sorted
import Lockstep.Selection.Live

/-!
# Regions of a candidate graph

A region is a set of module versions with exclusions for some modules. Both the
builder and the walk of a round grow a region, in which module versions are only
ever added and exclusions only ever shrink (`Region.Le`). An edge *arrives* in a
region if its target has exclusions that every way along the edge shares, and the
version that the edge leads to is inside. Arrivals last while a region grows
(`Region.Arrives.mono`), which is what makes the outcome of a search independent
of its order.
-/

namespace Lockstep

namespace Exclusions

/-- What the ways to a module so far and one more way share. -/
def shared (before : Option Exclusions) (inherited : Exclusions) : Exclusions :=
  (before.map (·.inter inherited)).getD inherited

theorem shared_subset_inherited (before : Option Exclusions) (inherited : Exclusions) :
    shared before inherited ⊆ inherited := by
  unfold shared
  cases before with
  | none => exact SortedSet.Subset.refl inherited
  | some set => exact SortedSet.inter_subset_right

theorem shared_subset_before {before : Option Exclusions} {set : Exclusions}
    (h : before = some set) (inherited : Exclusions) : shared before inherited ⊆ set := by
  subst h
  exact SortedSet.inter_subset_left

theorem subset_shared {before : Option Exclusions} {inherited least : Exclusions}
    (hbefore : ∀ set, before = some set → least ⊆ set) (hinherited : least ⊆ inherited) :
    least ⊆ shared before inherited := by
  cases before with
  | none => exact hinherited
  | some set => exact SortedSet.subset_inter (hbefore set rfl) hinherited

end Exclusions

/-- Module versions, and the exclusions of the modules reached. -/
structure Region where
  nodes : Coordinates → Prop
  exclusions : ModuleId → Option Exclusions

namespace Region

/-- `S` has every version of `R`, and no module of `R` has more exclusions in `S`. -/
structure Le (R S : Region) : Prop where
  nodes : ∀ c, R.nodes c → S.nodes c
  exclusions : ∀ id set, R.exclusions id = some set →
    ∃ shared, S.exclusions id = some shared ∧ shared ⊆ set

theorem le_refl (R : Region) : R.Le R :=
  ⟨fun _ h => h, fun _ set h => ⟨set, h, SortedSet.Subset.refl set⟩⟩

/-- What the ways to a module share is no less than what a greater region has. -/
theorem Le.subset_shared {R S : Region} (hRS : R.Le S) {id : ModuleId}
    {inherited least : Exclusions} (hleast : S.exclusions id = some least)
    (hsub : least ⊆ inherited) : least ⊆ .shared (R.exclusions id) inherited := by
  refine Exclusions.subset_shared (fun set hset => ?_) hsub
  obtain ⟨least', hleast', hsub'⟩ := hRS.exclusions id set hset
  obtain rfl := Option.some.inj (hleast.symm.trans hleast')
  exact hsub'

theorem le_antisymm {R S : Region} (hRS : R.Le S) (hSR : S.Le R) : R = S := by
  have hnodes : R.nodes = S.nodes :=
    funext fun c => propext ⟨hRS.nodes c, hSR.nodes c⟩
  have hexclusions : R.exclusions = S.exclusions := by
    funext id
    cases hR : R.exclusions id with
    | none =>
        cases hS : S.exclusions id with
        | none => rfl
        | some set =>
            obtain ⟨shared, hshared, -⟩ := hSR.exclusions id set hS
            rw [hR] at hshared
            cases hshared
    | some set =>
        obtain ⟨shared, hshared, hsub⟩ := hRS.exclusions id set hR
        obtain ⟨set', hset', hsub'⟩ := hSR.exclusions id shared hshared
        rw [hR] at hset'
        obtain rfl := Option.some.inj hset'
        rw [hshared, SortedSet.Subset.antisymm hsub hsub']
  obtain ⟨nodes, exclusions⟩ := R
  subst hnodes hexclusions
  rfl

/-- A way with the given exclusions leads to a module, at the given version if there is one. -/
def Arrives (R : Region) (target : ModuleId) (version : Option String) (inherited : Exclusions) :
    Prop :=
  ∃ set, R.exclusions target = some set ∧ set ⊆ inherited ∧
    ∀ v, version = some v → R.nodes (target.atVersion v)

theorem Arrives.mono {R S : Region} (hRS : R.Le S) {target : ModuleId} {version : Option String}
    {inherited : Exclusions} (h : R.Arrives target version inherited) :
    S.Arrives target version inherited := by
  obtain ⟨set, hset, hsub, hnode⟩ := h
  obtain ⟨shared, hshared, hsub'⟩ := hRS.exclusions target set hset
  exact ⟨shared, hshared, SortedSet.Subset.trans hsub' hsub,
    fun v hv => hRS.nodes _ (hnode v hv)⟩

/-- More exclusions on the way make no difference. -/
theorem Arrives.weaken {R : Region} {target : ModuleId} {version : Option String}
    {inherited more : Exclusions} (h : R.Arrives target version inherited)
    (hsub : inherited ⊆ more) : R.Arrives target version more := by
  obtain ⟨set, hset, hsub', hnode⟩ := h
  exact ⟨set, hset, SortedSet.Subset.trans hsub' hsub, hnode⟩

end Region

/-! ## Regions of a walk -/

theorem Walk.mem_onward {g : CandidateGraph} {set : Exclusions} {c : Coordinates} {e : EdgeId}
    {inherited : Exclusions} : (e, inherited) ∈ onward g set c ↔
      ∃ edge, e ∈ g.outgoing c ∧ g.edge? e = some edge ∧ set.exclude edge.target = false ∧
        inherited = set.union edge.dependency.exclusions := by
  unfold onward
  rw [List.mem_filterMap]
  constructor
  · rintro ⟨e', he', h⟩
    cases hedge : g.edge? e' with
    | none => simp [hedge] at h
    | some edge =>
        cases hex : set.exclude edge.target with
        | true => simp [hedge, hex] at h
        | false =>
            simp only [hedge, hex, Option.bind_eq_bind, Option.bind_some, Bool.false_eq_true,
              if_false, Option.some.injEq, Prod.mk.injEq] at h
            obtain ⟨rfl, rfl⟩ := h
            exact ⟨edge, he', hedge, hex, rfl⟩
  · rintro ⟨edge, he, hedge, hex, rfl⟩
    exact ⟨e, he, by simp [hedge, hex]⟩

/-- What a walk has reached so far. -/
def Walk.region (w : Walk) : Region :=
  ⟨(· ∈ w.nodes), w.exclusions.get?⟩

def Live.region (live : Live) : Region :=
  ⟨(· ∈ live.nodes), live.exclusions.get?⟩

/-- Everything that a walk under the guide may reach from the region is inside. -/
structure Region.Closed (R : Region) (g : CandidateGraph) (guide : Guide) : Prop where
  root : ∀ e ∈ g.rootEdges, ∀ edge, g.edge? e = some edge →
    R.Arrives edge.target (edge.version? guide) edge.dependency.exclusions
  onward : ∀ c, R.nodes c → ∀ set, R.exclusions c.id = some set →
    ∀ e ∈ g.outgoing c, ∀ edge, g.edge? e = some edge → set.exclude edge.target = false →
      R.Arrives edge.target (edge.version? guide) (set.union edge.dependency.exclusions)

end Lockstep
