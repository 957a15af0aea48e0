import Lockstep.Sorted.List

/-!
# Finite sets in increasing order

A set is the strictly increasing list of its members, so two sets with the same
members are equal, and listing one always gives the same order. Every set the
resolver keeps or reports (exclusions, constraints, requests) is of this type.

Main statements: `mem_insert`, `mem_union`, `mem_inter` and `mem_filter` say
what each operation does to membership, and `ext` that membership is all there
is.
-/

namespace Lockstep

/-- A finite set, as the increasing list of its members. -/
structure SortedSet (α : Type) [Ord α] where
  toList : List α
  increasing : Increasing toList
deriving DecidableEq

namespace SortedSet

variable {α : Type} [Ord α]

/-! ## Insertion into an increasing list -/

/-- Puts `a` in its place, unless it is there already. -/
def place (a : α) : List α → List α
  | [] => [a]
  | b :: rest =>
    match compare a b with
    | .lt => a :: b :: rest
    | .eq => b :: rest
    | .gt => b :: place a rest

theorem mem_of_mem_place {a b : α} {l : List α} (h : b ∈ place a l) : b = a ∨ b ∈ l := by
  induction l with
  | nil => simpa [place] using h
  | cons c rest ih =>
    simp only [place] at h
    split at h
    · simpa using h
    · exact Or.inr h
    · rcases List.mem_cons.1 h with rfl | h
      · exact Or.inr (by simp)
      · rcases ih h with h | h
        · exact Or.inl h
        · exact Or.inr (by simp [h])

theorem mem_place_of_mem {a b : α} {l : List α} (h : b ∈ l) : b ∈ place a l := by
  induction l with
  | nil => cases h
  | cons c rest ih =>
    simp only [place]
    split
    · simp [List.mem_cons.1 h]
    · exact h
    · rcases List.mem_cons.1 h with rfl | h
      · simp
      · simp [ih h]

theorem self_mem_place [Std.LawfulEqOrd α] (a : α) (l : List α) : a ∈ place a l := by
  induction l with
  | nil => simp [place]
  | cons c rest ih =>
    simp only [place]
    split
    · simp
    · next h => simp [Std.LawfulEqOrd.eq_of_compare h]
    · simp [ih]

theorem increasing_place [Std.TransOrd α] (a : α) {l : List α} (h : Increasing l) :
    Increasing (place a l) := by
  induction l with
  | nil => simp [place, Increasing]
  | cons c rest ih =>
    have hc := List.pairwise_cons.1 h
    simp only [place]
    split
    · next hlt =>
      refine List.pairwise_cons.2 ⟨fun b hb => ?_, h⟩
      rcases List.mem_cons.1 hb with rfl | hb
      · exact hlt
      · exact Std.TransCmp.lt_trans hlt (hc.1 b hb)
    · exact h
    · next hgt =>
      refine List.pairwise_cons.2 ⟨fun b hb => ?_, ih hc.2⟩
      rcases mem_of_mem_place hb with rfl | hb
      · exact Std.OrientedCmp.lt_of_gt hgt
      · exact hc.1 b hb

/-! ## Operations -/

instance : EmptyCollection (SortedSet α) := ⟨⟨[], increasing_nil⟩⟩

instance : Inhabited (SortedSet α) := ⟨∅⟩

instance : Membership α (SortedSet α) := ⟨fun s a => a ∈ s.toList⟩

def isEmpty (s : SortedSet α) : Bool :=
  s.toList.isEmpty

def size (s : SortedSet α) : Nat :=
  s.toList.length

/-- Whether some member compares equal to `a`. -/
def contains (s : SortedSet α) (a : α) : Bool :=
  s.toList.any fun b => compare a b == .eq

def insert [Std.TransOrd α] (a : α) (s : SortedSet α) : SortedSet α :=
  ⟨place a s.toList, increasing_place a s.increasing⟩

def insertAll [Std.TransOrd α] (as : List α) (s : SortedSet α) : SortedSet α :=
  as.foldl (fun acc a => acc.insert a) s

def ofList [Std.TransOrd α] (as : List α) : SortedSet α :=
  insertAll as ∅

def union [Std.TransOrd α] (s t : SortedSet α) : SortedSet α :=
  s.insertAll t.toList

def filter (p : α → Bool) (s : SortedSet α) : SortedSet α :=
  ⟨s.toList.filter p, s.increasing.filter p⟩

def inter (s t : SortedSet α) : SortedSet α :=
  s.filter t.contains

def diff (s t : SortedSet α) : SortedSet α :=
  s.filter fun a => !t.contains a

/-- The members of exactly one of two sets. -/
def symmDiff [Std.TransOrd α] (s t : SortedSet α) : SortedSet α :=
  (s.diff t).union (t.diff s)

def any (p : α → Bool) (s : SortedSet α) : Bool :=
  s.toList.any p

/-! ## Laws -/

theorem mem_def {a : α} {s : SortedSet α} : a ∈ s ↔ a ∈ s.toList := Iff.rfl

@[simp] theorem not_mem_empty (a : α) : ¬a ∈ (∅ : SortedSet α) := List.not_mem_nil

theorem contains_iff [Std.LawfulEqOrd α] {s : SortedSet α} {a : α} :
    s.contains a = true ↔ a ∈ s := by
  simp only [contains, List.any_eq_true, beq_iff_eq, mem_def]
  constructor
  · rintro ⟨b, hb, hab⟩
    exact Std.LawfulEqOrd.eq_of_compare hab ▸ hb
  · intro h
    exact ⟨a, h, Std.ReflCmp.compare_self⟩

instance [DecidableEq α] (a : α) (s : SortedSet α) : Decidable (a ∈ s) :=
  inferInstanceAs (Decidable (a ∈ s.toList))

theorem mem_insert [Std.TransOrd α] [Std.LawfulEqOrd α] {s : SortedSet α} {a b : α} :
    b ∈ s.insert a ↔ b = a ∨ b ∈ s :=
  ⟨mem_of_mem_place, fun h => h.elim (fun e => e ▸ self_mem_place a s.toList) mem_place_of_mem⟩

theorem mem_insertAll [Std.TransOrd α] [Std.LawfulEqOrd α] {as : List α} {s : SortedSet α} {b : α} :
    b ∈ s.insertAll as ↔ b ∈ as ∨ b ∈ s := by
  induction as generalizing s with
  | nil => simp [insertAll]
  | cons a rest ih =>
    simp only [insertAll, List.foldl_cons] at ih ⊢
    rw [ih, mem_insert, List.mem_cons]
    exact ⟨fun h => by rcases h with h | h | h <;> simp [h], fun h => by
      rcases h with (h | h) | h <;> simp [h]⟩

theorem mem_ofList [Std.TransOrd α] [Std.LawfulEqOrd α] {as : List α} {b : α} :
    b ∈ ofList as ↔ b ∈ as := by
  simp [ofList, mem_insertAll]

theorem mem_union [Std.TransOrd α] [Std.LawfulEqOrd α] {s t : SortedSet α} {b : α} :
    b ∈ s.union t ↔ b ∈ s ∨ b ∈ t := by
  rw [union, mem_insertAll, or_comm]
  rfl

theorem mem_filter {p : α → Bool} {s : SortedSet α} {b : α} :
    b ∈ s.filter p ↔ b ∈ s ∧ p b = true :=
  List.mem_filter

theorem mem_inter [Std.LawfulEqOrd α] {s t : SortedSet α} {b : α} :
    b ∈ s.inter t ↔ b ∈ s ∧ b ∈ t := by
  rw [inter, mem_filter, contains_iff]

theorem mem_diff [Std.LawfulEqOrd α] {s t : SortedSet α} {b : α} :
    b ∈ s.diff t ↔ b ∈ s ∧ ¬b ∈ t := by
  rw [diff, mem_filter, Bool.not_eq_true', ← Bool.not_eq_true, contains_iff]

/-- A set is determined by its members. -/
theorem ext [Std.TransOrd α] {s t : SortedSet α} (h : ∀ a, a ∈ s ↔ a ∈ t) : s = t := by
  obtain ⟨l, hl⟩ := s
  obtain ⟨m, hm⟩ := t
  obtain rfl := hl.eq_of_mem_iff hm h
  rfl

end SortedSet

end Lockstep
