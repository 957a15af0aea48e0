import Lockstep.Version.Scheme
import Mathlib.Data.List.Basic
import Mathlib.Data.List.Induction

/-!
# Version orders

Turning a comparison round turns its outcome round, for both schemes and all
texts. So every version is the same as itself, and which of two versions is
named first makes no difference to their being the same. Where versions are
preordered, a scan comes to the first of the greatest ones
(`VersionOrder.IsPreorderOn.firstGreatest_of_maxOf`). Semantic versions are.
-/

namespace Lockstep

namespace VersionOrder

/-- Turning a comparison round turns its outcome round. -/
def Oriented (order : VersionOrder) : Prop :=
  ∀ a b, order.compare b a = (order.compare a b).swap

variable {order : VersionOrder}

theorem Oriented.same_self (h : order.Oriented) (v : String) : order.same v v = true := by
  have hself := h v v
  unfold same
  cases hv : order.compare v v with
  | eq => rfl
  | lt =>
      rw [hv] at hself
      cases hself
  | gt =>
      rw [hv] at hself
      cases hself

theorem Oriented.same_comm (h : order.Oriented) (a b : String) :
    order.same b a = order.same a b := by
  unfold same
  rw [h a b]
  cases order.compare a b <;> rfl

theorem maxOf_eq_none_iff {l : List String} : order.maxOf l = none ↔ l = [] := by
  cases l <;> simp [maxOf]

/-! ## Preorders -/

/-- Comparison is a total preorder of the versions with a property. -/
structure IsPreorderOn (order : VersionOrder) (S : String → Prop) : Prop where
  swap : ∀ a b, S a → S b → order.compare b a = (order.compare a b).swap
  trans : ∀ a b c, S a → S b → S c → order.compare a b ≠ .gt → order.compare b c ≠ .gt →
    order.compare a c ≠ .gt

/-- Comparison is a total preorder. -/
abbrev IsPreorder (order : VersionOrder) : Prop :=
  order.IsPreorderOn fun _ => True

theorem isPreorder_of_transCmp (order : VersionOrder) [Std.TransCmp order.compare] :
    order.IsPreorder where
  swap _ _ _ _ := Std.OrientedCmp.eq_swap
  trans a b c _ _ _ hab hbc := by
    have hle : (order.compare a c).isLE = true :=
      Std.TransCmp.isLE_trans (Ordering.isLE_iff_ne_gt.2 hab) (Ordering.isLE_iff_ne_gt.2 hbc)
    exact Ordering.isLE_iff_ne_gt.1 hle

theorem IsPreorder.oriented (h : order.IsPreorder) : order.Oriented :=
  fun a b => h.swap a b trivial trivial

theorem IsPreorder.le_trans (h : order.IsPreorder) {a b c : String}
    (hab : order.compare a b ≠ .gt) (hbc : order.compare b c ≠ .gt) : order.compare a c ≠ .gt :=
  h.trans a b c trivial trivial trivial hab hbc

/-- A version with a property, and none with it goes beyond. -/
def Highest (order : VersionOrder) (P : String → Prop) (v : String) : Prop :=
  P v ∧ ∀ w, P w → order.compare w v ≠ .gt

/-- The first of the greatest versions in a list: all before it are less, and none after it is
greater. -/
def FirstGreatest (order : VersionOrder) (l : List String) (v : String) : Prop :=
  ∃ before after, l = before ++ v :: after ∧ (∀ w ∈ before, order.compare w v = .lt) ∧
    ∀ w ∈ after, order.compare w v ≠ .gt

namespace IsPreorderOn

variable {S : String → Prop} (h : order.IsPreorderOn S) {l : List String} {u v w : String}

include h

theorem compare_self (hv : S v) : order.compare v v = .eq := by
  have hself := h.swap v v hv hv
  cases hc : order.compare v v <;> simp [hc] at hself ⊢

theorem lt_of_le_of_lt (hu : S u) (hv : S v) (hw : S w) (huv : order.compare u v ≠ .gt)
    (hvw : order.compare v w = .lt) : order.compare u w = .lt := by
  refine Decidable.byContradiction fun huw => ?_
  have hwu : order.compare w u ≠ .gt := by
    rw [h.swap u w hu hw]
    simpa using huw
  apply h.trans w u v hw hu hv hwu huv
  rw [h.swap v w hv hw, hvw]
  rfl

theorem lt_of_gt (hu : S u) (hv : S v) (huv : order.compare u v = .gt) :
    order.compare v u = .lt := by
  rw [h.swap u v hu hv, huv]
  rfl

/-- One step of a scan. -/
theorem firstGreatest_concat (hl : ∀ u ∈ l, S u) (hw : S w) (hv : order.FirstGreatest l v) :
    order.FirstGreatest (l ++ [w]) (order.later v w) := by
  obtain ⟨before, after, rfl, hless, hle⟩ := hv
  have hSv : S v := hl v (by simp)
  unfold later
  split
  · next hgt =>
    have hvw : order.compare v w = .lt := h.lt_of_gt hw hSv hgt
    refine ⟨before ++ v :: after, [], rfl, fun u hu => ?_, nofun⟩
    refine h.lt_of_le_of_lt (hl u hu) hSv hw ?_ hvw
    rcases List.mem_append.1 hu with hu | hu
    · simp [hless u hu]
    · rcases List.mem_cons.1 hu with rfl | hu
      · simp [h.compare_self hSv]
      · exact hle u hu
  · next hnot =>
    refine ⟨before, after ++ [w], by simp, hless, fun u hu => ?_⟩
    rcases List.mem_append.1 hu with hu | hu
    · exact hle u hu
    · rwa [List.mem_singleton.1 hu]

theorem firstGreatest_foldl (rest : List String) (hS : ∀ u ∈ v :: rest, S u) :
    order.FirstGreatest (v :: rest) (rest.foldl order.later v) := by
  induction rest using List.reverseRecOn with
  | nil => exact ⟨[], [], rfl, nofun, nofun⟩
  | append_singleton rest w ih =>
      rw [List.foldl_concat, ← List.cons_append]
      have hrest : ∀ u ∈ v :: rest, S u := fun u hu => hS u (List.mem_append_left [w] hu)
      exact h.firstGreatest_concat hrest (hS w (by simp)) (ih hrest)

/-- A scan comes to the first of the greatest versions. -/
theorem firstGreatest_of_maxOf (hl : ∀ u ∈ l, S u) (hmax : order.maxOf l = some v) :
    order.FirstGreatest l v := by
  cases l with
  | nil => cases hmax
  | cons u rest =>
      obtain rfl := Option.some.inj hmax
      exact h.firstGreatest_foldl rest hl

theorem highest_of_maxOf (hl : ∀ u ∈ l, S u) (hmax : order.maxOf l = some v) :
    order.Highest (· ∈ l) v := by
  refine ⟨mem_of_maxOf hmax, fun w hw => ?_⟩
  obtain ⟨before, after, rfl, hless, hle⟩ := h.firstGreatest_of_maxOf hl hmax
  rcases List.mem_append.1 hw with hw | hw
  · simp [hless w hw]
  · rcases List.mem_cons.1 hw with rfl | hw
    · simp [h.compare_self (hl w (by simp))]
    · exact hle w hw

theorem exists_least (hl : ∀ u ∈ l, S u) (hne : l ≠ []) :
    ∃ v ∈ l, ∀ w ∈ l, order.compare v w ≠ .gt := by
  induction l with
  | nil => exact absurd rfl hne
  | cons u rest ih =>
      have hu : S u := hl u List.mem_cons_self
      have hself : order.compare u u ≠ .gt := by simp [h.compare_self hu]
      by_cases hrest : rest = []
      · subst hrest
        exact ⟨u, List.mem_cons_self, fun w hw => by rwa [List.mem_singleton.1 hw]⟩
      · obtain ⟨v, hv, hleast⟩ := ih (fun w hw => hl w (List.mem_cons_of_mem u hw)) hrest
        have hSv : S v := hl v (List.mem_cons_of_mem u hv)
        by_cases huv : order.compare u v = .gt
        · refine ⟨v, List.mem_cons_of_mem u hv, fun w hw => ?_⟩
          rcases List.mem_cons.1 hw with rfl | hw
          · simp [h.lt_of_gt hu hSv huv]
          · exact hleast w hw
        · refine ⟨u, List.mem_cons_self, fun w hw => ?_⟩
          rcases List.mem_cons.1 hw with rfl | hw
          · exact hself
          · have hSw : S w := hl w (List.mem_cons_of_mem u hw)
            exact h.trans u v w hu hSv hSw huv (hleast w hw)

end IsPreorderOn

end VersionOrder

namespace Version

/-! ## Segments -/

theorem Segment.swap_compare (a b : Segment) : b.compare a = (a.compare b).swap := by
  cases a <;> cases b
  case number.number => exact Std.OrientedOrd.eq_swap
  case qualifier.qualifier => exact Std.OrientedOrd.eq_swap
  case text.text => exact Std.OrientedOrd.eq_swap
  case qualifier.text q s => cases q <;> rfl
  case text.qualifier s q => cases q <;> rfl
  all_goals rfl

theorem swap_compareSegments (as bs : List Segment) :
    compareSegments bs as = (compareSegments as bs).swap := by
  induction as generalizing bs with
  | nil =>
      cases bs with
      | nil => rfl
      | cons b bs =>
          unfold compareSegments
          exact (Ordering.swap_swap).symm
  | cons a as ih =>
      cases bs with
      | nil => rfl
      | cons b bs =>
          unfold compareSegments
          rw [Ordering.swap_then, ← Segment.swap_compare, ← ih]

theorem oriented_segmentOrder : segmentOrder.Oriented :=
  fun a b => swap_compareSegments (segments a) (segments b)

/-! ## Semantic versions -/

namespace Semantic

theorem swap_compareIdentifier (a b : Identifier) :
    compareIdentifier b a = (compareIdentifier a b).swap := by
  cases a <;> cases b
  case number.number => exact Std.OrientedOrd.eq_swap
  case word.word => exact Std.OrientedOrd.eq_swap
  all_goals rfl

theorem swap_compareIdentifiers (as bs : List Identifier) :
    compareIdentifiers bs as = (compareIdentifiers as bs).swap := by
  induction as generalizing bs with
  | nil => cases bs <;> rfl
  | cons a as ih =>
      cases bs with
      | nil => rfl
      | cons b bs =>
          unfold compareIdentifiers
          rw [Ordering.swap_then, ← swap_compareIdentifier, ← ih]

theorem swap_comparePrerelease (as bs : List Identifier) :
    comparePrerelease bs as = (comparePrerelease as bs).swap := by
  cases as <;> cases bs
  case cons.cons a as b bs => exact swap_compareIdentifiers (a :: as) (b :: bs)
  all_goals rfl

/-- Identifiers are ordered by sort, then by number or word. -/
instance : Std.TransCmp compareIdentifier where
  eq_swap {a b} := swap_compareIdentifier b a
  isLE_trans {a b c} hab hbc := by
    cases a <;> cases b <;> cases c
    case number.number.number a b c =>
      show (Ord.compare a c).isLE = true
      exact Std.TransCmp.isLE_trans hab hbc
    case word.word.word a b c =>
      show (Ord.compare a c).isLE = true
      exact Std.TransCmp.isLE_trans hab hbc
    all_goals simp_all [compareIdentifier]

theorem compareIdentifiers_eq : compareIdentifiers = List.compareLex compareIdentifier := by
  funext as bs
  induction as generalizing bs with
  | nil => cases bs <;> rfl
  | cons a as ih =>
      cases bs with
      | nil => rfl
      | cons b bs =>
          unfold compareIdentifiers
          rw [ih, List.compareLex_cons_cons]

/-- A list without identifiers comes last, the others are ordered one by one. -/
instance : Std.TransCmp comparePrerelease where
  eq_swap {as bs} := swap_comparePrerelease bs as
  isLE_trans {as bs cs} hab hbc := by
    cases as <;> cases bs <;> cases cs
    case cons.cons.cons a as b bs c cs =>
      change (compareIdentifiers (a :: as) (b :: bs)).isLE = true at hab
      change (compareIdentifiers (b :: bs) (c :: cs)).isLE = true at hbc
      show (compareIdentifiers (a :: as) (c :: cs)).isLE = true
      rw [compareIdentifiers_eq] at hab hbc ⊢
      exact Std.TransCmp.isLE_trans hab hbc
    all_goals simp_all [comparePrerelease]

instance : Std.TransCmp fun a b : Semantic => comparePrerelease a.prerelease b.prerelease where
  eq_swap {a b} := swap_comparePrerelease b.prerelease a.prerelease
  isLE_trans {a b c} hab hbc := by
    show (comparePrerelease a.prerelease c.prerelease).isLE = true
    exact Std.TransCmp.isLE_trans hab hbc

instance : Std.TransCmp Semantic.compare :=
  inferInstanceAs (Std.TransCmp (compareLex (compareOn major) (compareLex (compareOn minor)
    (compareLex (compareOn patch) fun a b => comparePrerelease a.prerelease b.prerelease))))

end Semantic

/-! ### Texts by what is read from them -/

section ReadOrder

variable {α : Type} {read : String → Option α} {cmp : α → α → Ordering}

/-- The order of texts by what a reader makes of them. Texts that it makes nothing of come before
all others and are ordered as texts. -/
def readOrder (read : String → Option α) (cmp : α → α → Ordering) : VersionOrder where
  compare a b :=
    match read a, read b with
    | some x, some y => cmp x y
    | some _, none => .gt
    | none, some _ => .lt
    | none, none => Ord.compare a b

instance [Std.OrientedCmp cmp] : Std.OrientedCmp (readOrder read cmp).compare where
  eq_swap {a b} := by
    unfold readOrder
    dsimp only
    cases read a <;> cases read b
    case none.none => exact Std.OrientedOrd.eq_swap
    case some.some x y => exact Std.OrientedCmp.eq_swap
    all_goals rfl

instance [Std.TransCmp cmp] : Std.TransCmp (readOrder read cmp).compare where
  isLE_trans {a b c} hab hbc := by
    unfold readOrder at hab hbc ⊢
    dsimp only at hab hbc ⊢
    cases ha : read a <;> cases hb : read b <;> cases hc : read c <;>
      simp only [ha, hb, hc] at hab hbc ⊢
    case none.none.none => exact Std.TransCmp.isLE_trans hab hbc
    case some.some.some => exact Std.TransCmp.isLE_trans hab hbc
    all_goals simp at hab hbc ⊢

theorem compare_readOrder_of_unread {a b : String} (ha : (read a).isSome = true)
    (hb : read b = none) : (readOrder read cmp).compare a b = .gt := by
  obtain ⟨x, hx⟩ := Option.isSome_iff_exists.1 ha
  simp [readOrder, hx, hb]

end ReadOrder

theorem semanticOrder_eq : semanticOrder = readOrder Semantic.ofString? Semantic.compare := by
  unfold semanticOrder readOrder
  congr 1
  ext a b
  cases Semantic.ofString? a <;> cases Semantic.ofString? b <;> rfl

instance : Std.TransCmp semanticOrder.compare := by
  rw [semanticOrder_eq]
  infer_instance

theorem oriented_semanticOrder : semanticOrder.Oriented := by
  intro a b
  have horiented : Std.OrientedCmp semanticOrder.compare := inferInstance
  exact horiented.eq_swap

end Version

theorem Scheme.oriented (s : Scheme) : s.order.Oriented := by
  cases s with
  | maven => exact Version.oriented_segmentOrder
  | semver => exact Version.oriented_semanticOrder

end Lockstep
