/-!
# Sorted lists

A strictly increasing list has nothing in it twice, and its members determine it
(`Increasing.eq_of_mem_iff`). Elements are compared field by field; those that
compare equal by a field agree in it (`compareOn_eq_iff`). Where elements may be
equal, a list is sorted with those kept in order that may precede each other.
The sort inserts one element after the other, by recursion on the list, so a
sorted list at hand can be found by evaluation.
-/

namespace Lockstep

variable {α : Type}

theorem compareOn_eq_iff {β : Type} [Ord β] [Std.LawfulEqOrd β] {field : α → β} {a b : α} :
    compareOn field a b = .eq ↔ field a = field b :=
  Std.compare_eq_iff_eq

/-! ## Increasing lists -/

/-- Strictly increasing lists. -/
abbrev Increasing [Ord α] (l : List α) : Prop :=
  l.Pairwise fun a b => compare a b = .lt

theorem increasing_nil [Ord α] : Increasing ([] : List α) :=
  List.Pairwise.nil

namespace Increasing

variable [Ord α] [Std.TransOrd α] {l m : List α}

theorem nodup (h : Increasing l) : l.Nodup := by
  refine h.imp ?_
  rintro a _ hlt rfl
  have hself : compare a a = .eq := Std.ReflCmp.compare_self
  rw [hself] at hlt
  cases hlt

/-- Increasing lists with the same members are the same list. -/
theorem eq_of_mem_iff (hl : Increasing l) (hm : Increasing m) (h : ∀ a, a ∈ l ↔ a ∈ m) :
    l = m := by
  have hperm : l.Perm m := (List.perm_ext_iff_of_nodup hl.nodup hm.nodup).2 h
  refine hperm.eq_of_pairwise ?_ hl hm
  intro a b _ _ hab hba
  rw [Std.OrientedCmp.gt_of_lt hab] at hba
  cases hba

end Increasing

/-! ## Sorting -/

/-- Puts `a` before the first element that it may precede. -/
def insertBy (le : α → α → Bool) (a : α) : List α → List α
  | [] => [a]
  | b :: rest => if le a b then a :: b :: rest else b :: insertBy le a rest

/-- The elements in order. Those that may precede each other stay as they are. -/
def sortBy (le : α → α → Bool) : List α → List α
  | [] => []
  | a :: rest => insertBy le a (sortBy le rest)

end Lockstep
