import Mathlib.Algebra.BigOperators.Ring.List
import Mathlib.Algebra.Order.BigOperators.Group.List
import Mathlib.Algebra.Order.Ring.Nat
import Mathlib.Data.List.Nodup
import Mathlib.Data.List.Perm.Subperm

/-!
# Sums that bound the work of a search

A search ends because each of its steps pays for what it adds from a sum that
only decreases. The laws here compare such sums where the lists summed over
differ.
-/

namespace Lockstep

variable {α β : Type}

theorem length_flatMap_le {f : α → Nat} {h : α → List β} {l : List α}
    (hle : ∀ a ∈ l, (h a).length ≤ f a) : (l.flatMap h).length ≤ (l.map f).sum := by
  rw [List.length_flatMap]
  exact List.sum_le_sum hle

theorem sum_map_le_of_subperm (f : α → Nat) {l m : List α} (h : l.Subperm m) :
    (l.map f).sum ≤ (m.map f).sum := by
  obtain ⟨k, hperm, hsub⟩ := h
  rw [← (hperm.map f).sum_eq]
  exact (hsub.map f).sum_le_sum fun n _ => Nat.zero_le n

theorem sum_map_filter (f : α → Nat) (p : α → Prop) [DecidablePred p] (l : List α) :
    ((l.filter p).map f).sum = (l.map fun a => if p a then f a else 0).sum := by
  simp [List.sum_map_ite]

/-- A sum over distinct elements is part of the sum over any list that has those that count. -/
theorem sum_map_le_sum_map_ite [DecidableEq α] (f : α → Nat) {l m : List α} (hnodup : l.Nodup)
    (hout : ∀ a ∈ l, a ∉ m → f a = 0) :
    (l.map f).sum ≤ (m.map fun a => if a ∈ l then f a else 0).sum := by
  have hdrop : l.map f = l.map fun a => if a ∈ m then f a else 0 := by
    refine List.map_congr_left fun a ha => ?_
    split
    · rfl
    · next hm => exact hout a ha hm
  have hsub : (l.filter (· ∈ m)).Subperm (m.filter (· ∈ l)) := by
    refine (hnodup.filter _).subperm ?_
    intro a ha
    have hmem := List.mem_filter.1 ha
    exact List.mem_filter.2 ⟨of_decide_eq_true hmem.2, decide_eq_true hmem.1⟩
  calc (l.map f).sum = ((l.filter (· ∈ m)).map f).sum := by rw [hdrop, sum_map_filter f (· ∈ m)]
    _ ≤ ((m.filter (· ∈ l)).map f).sum := sum_map_le_of_subperm f hsub
    _ = (m.map fun a => if a ∈ l then f a else 0).sum := sum_map_filter f (· ∈ l) m

end Lockstep
