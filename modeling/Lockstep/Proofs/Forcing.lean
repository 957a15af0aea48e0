import Lockstep.Proofs.Choosing
import Lockstep.Proofs.Orders

/-!
# Forced edges

Where forced edges lead to a module, they decide its version among themselves
(`Choice.select_of_forced`). If none of them goes beyond the version that one of
them calls for, that version is chosen (`Choice.select_eq_of_forced`); and if
their choice has no error, all of them call for versions that count as one
(`Choice.same_of_forced`).
-/

namespace Lockstep

namespace VersionOrder

variable {order : VersionOrder} {l : List String} {v w : String}

/-! ## Distinct versions -/

/-- What is kept of a list after a version. -/
def keep (order : VersionOrder) (kept : List String) (v : String) : List String :=
  if kept.any (order.same · v) then kept else kept ++ [v]

theorem distinct_cons (order : VersionOrder) (v : String) (l : List String) :
    order.distinct (v :: l) = l.foldl order.keep [v] :=
  rfl

theorem prefix_foldl_keep (order : VersionOrder) (l kept : List String) :
    kept <+: l.foldl order.keep kept := by
  induction l generalizing kept with
  | nil => exact List.prefix_refl kept
  | cons w rest ih =>
      refine List.IsPrefix.trans ?_ (ih (order.keep kept w))
      unfold keep
      split
      · exact List.prefix_refl kept
      · exact List.prefix_append kept [w]

theorem distinct_ne_nil (h : l ≠ []) : order.distinct l ≠ [] := by
  cases l with
  | nil => exact absurd rfl h
  | cons v rest =>
      rw [distinct_cons]
      intro hnil
      have hprefix := prefix_foldl_keep order rest [v]
      rw [hnil] at hprefix
      exact absurd (List.prefix_nil.1 hprefix) (List.cons_ne_nil v [])

/-- If only one version is kept, all others count as the first. -/
theorem same_of_length_distinct_le_one (h : (order.distinct (v :: l)).length ≤ 1) (hw : w ∈ l) :
    order.same v w = true := by
  rw [distinct_cons] at h
  induction l with
  | nil => cases hw
  | cons u rest ih =>
      rw [List.foldl_cons] at h
      unfold keep at h
      split at h
      · next hsame =>
        rcases List.mem_cons.1 hw with rfl | hw
        · simpa using hsame
        · exact ih h hw
      · have hle := (prefix_foldl_keep order rest ([v] ++ [u])).length_le
        exact absurd (Nat.le_trans hle h) (Nat.not_le_of_lt (Nat.lt_succ_self 1))

/-- If only one version is kept, all others count as it. -/
theorem same_of_distinct_eq_singleton (horder : order.Oriented) (h : order.distinct l = [v])
    (hw : w ∈ l) : order.same v w = true := by
  cases l with
  | nil => cases hw
  | cons u rest =>
      have hprefix := prefix_foldl_keep order rest [u]
      rw [← distinct_cons, h] at hprefix
      obtain rfl := List.cons.inj (List.IsPrefix.eq_of_length hprefix rfl) |>.1
      rcases List.mem_cons.1 hw with rfl | hw
      · exact horder.same_self w
      · exact same_of_length_distinct_le_one (Nat.le_of_eq (congrArg List.length h)) hw

theorem distinct_eq_singleton (h : ∀ w ∈ l, order.same v w = true) :
    order.distinct (v :: l) = [v] := by
  rw [distinct_cons]
  induction l with
  | nil => rfl
  | cons u rest ih =>
      rw [List.foldl_cons]
      unfold keep
      rw [if_pos (by simpa using h u List.mem_cons_self)]
      exact ih fun w hw => h w (List.mem_cons_of_mem _ hw)

/-- A version is kept if no other one counts as it. -/
theorem mem_distinct (hv : v ∈ l) (h : ∀ w ∈ l, order.same w v = true → w = v) :
    v ∈ order.distinct l := by
  suffices hgen : ∀ kept : List String, (∀ w ∈ kept, order.same w v = true → w = v) →
      v ∈ kept ∨ v ∈ l → v ∈ l.foldl order.keep kept from
    hgen [] (fun w hw => absurd hw List.not_mem_nil) (Or.inr hv)
  clear hv
  induction l with
  | nil => exact fun kept _ hmem => hmem.resolve_right List.not_mem_nil
  | cons u rest ih =>
      intro kept hkept hmem
      have hrest := ih fun w hw => h w (List.mem_cons_of_mem _ hw)
      rw [List.foldl_cons]
      unfold keep
      split
      · next hany =>
        refine hrest kept hkept ?_
        rcases hmem with hmem | hmem
        · exact Or.inl hmem
        · rcases List.mem_cons.1 hmem with rfl | hmem
          · obtain ⟨k, hk, hsame⟩ := List.any_eq_true.1 hany
            rw [← hkept k hk hsame]
            exact Or.inl hk
          · exact Or.inr hmem
      · refine hrest (kept ++ [u]) ?_ ?_
        · intro w hw
          rcases List.mem_append.1 hw with hw | hw
          · exact hkept w hw
          · rw [List.mem_singleton.1 hw]
            exact h u List.mem_cons_self
        · rcases hmem with hmem | hmem
          · exact Or.inl (List.mem_append_left _ hmem)
          · rcases List.mem_cons.1 hmem with rfl | hmem
            · exact Or.inl (List.mem_append_right _ List.mem_cons_self)
            · exact Or.inr hmem

/-! ## The greatest version -/

/-- Every other version of the list is below this one. -/
def Tops (order : VersionOrder) (v : String) (l : List String) : Prop :=
  ∀ w ∈ l, w ≠ v → order.compare w v = .lt ∧ order.compare v w = .gt

theorem later_eq_or (order : VersionOrder) (u w : String) :
    order.later u w = u ∨ order.later u w = w := by
  unfold later
  split
  · exact Or.inr rfl
  · exact Or.inl rfl

theorem later_eq_of_tops {u : String} (h : order.Tops v [u, w]) (hv : v = u ∨ v = w) :
    order.later u w = v := by
  unfold later
  by_cases hu : u = v
  · subst hu
    by_cases hw : w = u
    · rw [hw, ite_self]
    · rw [(h w (List.mem_cons_of_mem _ List.mem_cons_self) hw).1, if_neg (by decide)]
  · obtain rfl := hv.resolve_left (Ne.symm hu)
    rw [(h u List.mem_cons_self hu).2, if_pos rfl]

/-- A version that every other one is below is the greatest. -/
theorem maxOf_eq (hv : v ∈ l) (h : order.Tops v l) : order.maxOf l = some v := by
  suffices hgen : ∀ (rest : List String) (u : String), v = u ∨ v ∈ rest →
      order.Tops v (u :: rest) → rest.foldl order.later u = v by
    cases l with
    | nil => cases hv
    | cons u rest => exact congrArg some (hgen rest u (List.mem_cons.1 hv) h)
  intro rest
  induction rest with
  | nil => exact fun u hmem _ => (hmem.resolve_right List.not_mem_nil).symm
  | cons w rest ih =>
      intro u hmem htops
      rw [List.foldl_cons]
      have hpair : order.Tops v [u, w] := by
        intro x hx
        exact htops x (List.mem_append_left rest hx)
      refine ih (order.later u w) ?_ ?_
      · by_cases hrest : v ∈ rest
        · exact Or.inr hrest
        · refine Or.inl (later_eq_of_tops hpair ?_).symm
          exact hmem.imp_right fun hmem => (List.mem_cons.1 hmem).resolve_right hrest
      · intro x hx
        rcases List.mem_cons.1 hx with rfl | hx
        · rcases order.later_eq_or u w with heq | heq
          · rw [heq]
            exact hpair u List.mem_cons_self
          · rw [heq]
            exact hpair w (List.mem_cons_of_mem _ List.mem_cons_self)
        · exact htops x (List.mem_cons_of_mem _ (List.mem_cons_of_mem _ hx))

end VersionOrder

namespace Choice

variable {order : VersionOrder} {g : CandidateGraph} {id : ModuleId} {set : SortedSet Candidate}
  {v w : String}

/-! ## Agreement -/

section

variable {candidates : List Candidate} {reason : Reason} {conflict : List Party → ResolveError}

/-- What decides is told even next to an error. -/
theorem reason_of_agreed (hv : (agreed order id candidates reason conflict).version = some v) :
    (agreed order id candidates reason conflict).reason = reason := by
  unfold agreed at hv ⊢
  dsimp only at hv ⊢
  cases hbest : order.maxOf (order.distinct (versions candidates)) with
  | none =>
      rw [hbest] at hv
      cases hv
  | some best => rfl

variable (herror : (agreed order id candidates reason conflict).error = none)

include herror

/-- Demands that agree without an error come to one version at most. -/
theorem length_distinct_le_one_of_agreed : (order.distinct (versions candidates)).length ≤ 1 := by
  unfold agreed at herror
  dsimp only at herror
  cases hbest : order.maxOf (order.distinct (versions candidates)) with
  | none =>
      rw [VersionOrder.maxOf_eq_none_iff.1 hbest]
      exact Nat.zero_le 1
  | some best =>
      rw [hbest] at herror
      by_contra hlt
      rw [if_pos (Nat.lt_of_not_le hlt)] at herror
      cases herror

/-- Demands that agree without an error call for what counts as the version chosen. -/
theorem same_of_agreed (horder : order.Oriented)
    (hv : (agreed order id candidates reason conflict).version = some v)
    (hw : w ∈ versions candidates) : order.same v w = true := by
  have hlength := length_distinct_le_one_of_agreed herror
  unfold agreed at hv
  dsimp only at hv
  cases hbest : order.maxOf (order.distinct (versions candidates)) with
  | none =>
      rw [hbest] at hv
      cases hv
  | some best =>
      rw [hbest] at hv
      obtain rfl := Option.some.inj hv
      have hmem := VersionOrder.mem_of_maxOf hbest
      rcases hlist : order.distinct (versions candidates) with _ | ⟨u, _ | ⟨u', rest⟩⟩
      · rw [hlist] at hmem
        cases hmem
      · rw [hlist, List.mem_singleton] at hmem
        subst hmem
        exact VersionOrder.same_of_distinct_eq_singleton horder hlist hw
      · rw [hlist] at hlength
        exact absurd hlength (by simp)

end

/-! ## Choices among forced edges -/

/-- The versions that forced edges call for. -/
def forcedVersions (set : SortedSet Candidate) : List String :=
  versions (ofKinds [.forcedEdge] set)

theorem mem_forcedVersions : v ∈ forcedVersions set ↔
    ∃ c ∈ set, c.demand.kind = .forcedEdge ∧ c.version? = some v := by
  unfold forcedVersions
  rw [mem_versions]
  refine exists_congr fun c => ?_
  rw [mem_ofKinds, List.mem_singleton, and_assoc]

theorem select_of_forced (hv : v ∈ forcedVersions set) : select order g id set =
    agreed order id (ofKinds [.forcedEdge] set) .forced (.versionConflict id) := by
  obtain ⟨c, hc, -⟩ := mem_versions.1 hv
  unfold select
  cases hforced : ofKinds [.forcedEdge] set with
  | nil =>
      rw [hforced] at hc
      cases hc
  | cons f fs => rfl

theorem reason_of_forced (hv : v ∈ forcedVersions set)
    (hw : (select order g id set).version = some w) :
    (select order g id set).reason = .forced := by
  rw [select_of_forced hv] at hw ⊢
  exact reason_of_agreed hw

/-- A version that no forced edge goes beyond is chosen, without an error if they all call for
it. -/
theorem select_eq_of_forced (horder : order.Oriented) (hv : v ∈ forcedVersions set)
    (hsame : ∀ w ∈ forcedVersions set, order.same w v = true → w = v)
    (hbelow : ∀ w ∈ forcedVersions set, order.compare w v ≠ .gt) :
    (select order g id set).version = some v ∧ (select order g id set).reason = .forced ∧
      ((∀ w ∈ forcedVersions set, w = v) → (select order g id set).error = none) := by
  have hmax : order.maxOf (order.distinct (forcedVersions set)) = some v := by
    refine VersionOrder.maxOf_eq (VersionOrder.mem_distinct hv hsame) fun w hw hne => ?_
    have hw := VersionOrder.mem_of_mem_distinct hw
    have hlt : order.compare w v = .lt := by
      cases hcompare : order.compare w v with
      | lt => rfl
      | eq => exact absurd (hsame w hw (beq_iff_eq.2 hcompare)) hne
      | gt => exact absurd hcompare (hbelow w hw)
    refine ⟨hlt, ?_⟩
    rw [horder w v, hlt]
    rfl
  rw [select_of_forced hv]
  unfold agreed
  dsimp only
  rw [show order.maxOf (order.distinct (versions (ofKinds [.forcedEdge] set))) = some v from hmax]
  refine ⟨rfl, rfl, fun hall => if_neg (Nat.not_lt.2 ?_)⟩
  change (order.distinct (forcedVersions set)).length ≤ 1
  cases hlist : forcedVersions set with
  | nil => exact Nat.zero_le 1
  | cons first rest =>
      rw [hlist] at hall
      rw [VersionOrder.distinct_eq_singleton]
      · exact Nat.le_refl 1
      · intro w hw
        rw [hall first List.mem_cons_self, hall w (List.mem_cons_of_mem _ hw)]
        exact horder.same_self v

/-- Forced edges without an error call for versions that count as one. -/
theorem same_of_forced (hv : v ∈ forcedVersions set) (hw : w ∈ forcedVersions set)
    (herror : (select order g id set).error = none) :
    ∃ u ∈ forcedVersions set,
      (u = v ∨ order.same u v = true) ∧ (u = w ∨ order.same u w = true) := by
  rw [select_of_forced hv] at herror
  have hlength : (order.distinct (forcedVersions set)).length ≤ 1 :=
    length_distinct_le_one_of_agreed herror
  cases hlist : forcedVersions set with
  | nil =>
      rw [hlist] at hv
      cases hv
  | cons first rest =>
      rw [hlist] at hv hw hlength
      have hfirst : ∀ u ∈ first :: rest, first = u ∨ order.same first u = true := by
        intro u hu
        rcases List.mem_cons.1 hu with rfl | hu
        · exact Or.inl rfl
        · exact Or.inr (VersionOrder.same_of_length_distinct_le_one hlength hu)
      exact ⟨first, List.mem_cons_self, hfirst v hv, hfirst w hw⟩

end Choice

end Lockstep
