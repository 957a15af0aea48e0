import Mathlib.Data.List.DropRight
import Lockstep.Proofs.Orders

/-!
# Sequences without end

A list that goes on with one element forever is a sequence without end
(`padded`). Two of them are compared at the first place where they differ
(`Decides`), so a comparison is as good an order of sequences as it is of their
elements (`Decides.le_trans`).
-/

namespace Lockstep

variable {α : Type} {cmp : α → α → Ordering} {f g h : Nat → α} {o o' : Ordering}

/-! ## The first difference -/

/-- What comparing two sequences comes to: the first place that differs decides. -/
inductive Decides (cmp : α → α → Ordering) (f g : Nat → α) : Ordering → Prop
  | never (hsame : ∀ i, cmp (f i) (g i) = .eq) : Decides cmp f g .eq
  | first {o : Ordering} (i : Nat) (hbefore : ∀ j < i, cmp (f j) (g j) = .eq)
      (hhere : cmp (f i) (g i) = o) (hdiffers : o ≠ .eq) : Decides cmp f g o

namespace Decides

/-- The outcome is what the place says up to which there is no difference, if there is one at it. -/
theorem eq_of_first (hd : Decides cmp f g o) {i : Nat} (hbefore : ∀ j < i, cmp (f j) (g j) = .eq)
    (hdiffers : cmp (f i) (g i) ≠ .eq) : o = cmp (f i) (g i) := by
  cases hd with
  | never hsame => exact absurd (hsame i) hdiffers
  | first k hbefore' hhere hdiffers' =>
      rcases Nat.lt_trichotomy i k with hlt | rfl | hlt
      · exact absurd (hbefore' i hlt) hdiffers
      · exact hhere.symm
      · exact absurd (hhere.symm.trans (hbefore k hlt)) hdiffers'

theorem unique (hd : Decides cmp f g o) (hd' : Decides cmp f g o') : o = o' := by
  cases hd' with
  | never hsame =>
      cases hd with
      | never => rfl
      | first i _ hhere hdiffers => exact absurd (hhere.symm.trans (hsame i)) hdiffers
  | first i hbefore hhere hdiffers =>
      rw [← hhere]
      apply hd.eq_of_first hbefore
      rwa [hhere]

theorem eq_iff (hd : Decides cmp f g o) : o = .eq ↔ ∀ i, cmp (f i) (g i) = .eq := by
  constructor
  · rintro rfl
    cases hd with
    | never hsame => exact hsame
    | first i _ _ hdiffers => exact absurd rfl hdiffers
  · intro hsame
    exact hd.unique (.never hsame)

/-- One sequence is at most the other if it is at the first difference. -/
theorem ne_gt_iff (hd : Decides cmp f g o) :
    o ≠ .gt ↔ ∀ i, (∀ j < i, cmp (f j) (g j) = .eq) → cmp (f i) (g i) ≠ .gt := by
  constructor
  · intro hle i hbefore hgt
    apply hle
    rw [← hgt]
    apply hd.eq_of_first hbefore
    simp [hgt]
  · rintro hle rfl
    cases hd with
    | first i hbefore hhere _ => exact hle i hbefore hhere

/-- The first place, and then what follows it. -/
theorem cons (hd : Decides cmp (fun i => f (i + 1)) (fun i => g (i + 1)) o) :
    Decides cmp f g ((cmp (f 0) (g 0)).then o) := by
  by_cases hzero : cmp (f 0) (g 0) = .eq
  · rw [hzero]
    cases hd with
    | never hsame =>
        apply never
        rintro (_ | i)
        · exact hzero
        · exact hsame i
    | first i hbefore hhere hdiffers =>
        refine .first (i + 1) ?_ hhere hdiffers
        rintro (_ | j) hj
        · exact hzero
        · exact hbefore j (Nat.lt_of_succ_lt_succ hj)
  · have hthen : (cmp (f 0) (g 0)).then o = cmp (f 0) (g 0) := by
      cases hc : cmp (f 0) (g 0) <;> simp_all
    rw [hthen]
    exact .first 0 (fun j hj => absurd hj (Nat.not_lt_zero j)) rfl hzero

/-- Places at the front that do not differ may be left out. -/
theorem drop_iff {i : Nat} (hbefore : ∀ j < i, cmp (f j) (g j) = .eq) :
    Decides cmp (fun k => f (i + k)) (fun k => g (i + k)) o ↔ Decides cmp f g o := by
  have hplace : ∀ j, i ≤ j → ∃ k, j = i + k := fun j => Nat.exists_eq_add_of_le
  constructor
  · intro hd
    cases hd with
    | never hsame =>
        apply never
        intro j
        rcases Nat.lt_or_ge j i with hj | hj
        · exact hbefore j hj
        · obtain ⟨k, rfl⟩ := hplace j hj
          exact hsame k
    | first k hbefore' hhere hdiffers =>
        refine .first (i + k) ?_ hhere hdiffers
        intro j hj
        rcases Nat.lt_or_ge j i with hlt | hge
        · exact hbefore j hlt
        · obtain ⟨l, rfl⟩ := hplace j hge
          exact hbefore' l (Nat.lt_of_add_lt_add_left hj)
  · intro hd
    cases hd with
    | never hsame => exact .never fun k => hsame (i + k)
    | first j hbefore' hhere hdiffers =>
        rcases Nat.lt_or_ge j i with hlt | hge
        · exact absurd (hhere.symm.trans (hbefore j hlt)) hdiffers
        · obtain ⟨k, rfl⟩ := hplace j hge
          exact .first k (fun l hl => hbefore' (i + l) (Nat.add_lt_add_left hl i)) hhere hdiffers

/-- Elements may be looked at through other eyes that see the same. -/
theorem congr {β : Type} {cmp' : β → β → Ordering} {f' g' : Nat → β} (hd : Decides cmp f g o)
    (hsame : ∀ i, cmp' (f' i) (g' i) = cmp (f i) (g i)) : Decides cmp' f' g' o := by
  cases hd with
  | never hall => exact .never fun i => (hsame i).trans (hall i)
  | first i hbefore hhere hdiffers =>
      exact .first i (fun j hj => (hsame j).trans (hbefore j hj)) ((hsame i).trans hhere) hdiffers

theorem swap [Std.OrientedCmp cmp] (hd : Decides cmp f g o) : Decides cmp g f o.swap := by
  have hturn : ∀ i, cmp (g i) (f i) = (cmp (f i) (g i)).swap :=
    fun i => Std.OrientedCmp.eq_swap
  cases hd with
  | never hsame => exact .never fun i => by rw [hturn, hsame, Ordering.swap]
  | first i hbefore hhere hdiffers =>
      refine .first i (fun j hj => by rw [hturn, hbefore j hj, Ordering.swap]) ?_ ?_
      · rw [hturn, hhere]
      · simpa using hdiffers

theorem le_trans [Std.TransCmp cmp] {o'' : Ordering} (hfg : Decides cmp f g o)
    (hgh : Decides cmp g h o') (hfh : Decides cmp f h o'') (hle : o ≠ .gt) (hle' : o' ≠ .gt) :
    o'' ≠ .gt := by
  rw [hfg.ne_gt_iff] at hle
  rw [hgh.ne_gt_iff] at hle'
  rw [hfh.ne_gt_iff]
  intro i hbefore
  -- As far as the outer two agree, the one between them agrees with both.
  have hbetween : ∀ j ≤ i, (∀ k < j, cmp (f k) (g k) = .eq) ∧ ∀ k < j, cmp (g k) (h k) = .eq := by
    intro j
    induction j with
    | zero => simp
    | succ j ih =>
        intro hj
        obtain ⟨hf, hg⟩ := ih (Nat.le_of_succ_le hj)
        have hfg' := Ordering.isLE_iff_ne_gt.2 (hle j hf)
        have hgh' := Ordering.isLE_iff_ne_gt.2 (hle' j hg)
        have hfh' := hbefore j hj
        have hturn : cmp (h j) (f j) = (cmp (f j) (h j)).swap := Std.OrientedCmp.eq_swap
        have hgf : (cmp (g j) (f j)).isLE = true :=
          Std.TransCmp.isLE_trans hgh' (by rw [hturn, hfh']; rfl)
        have heq : cmp (f j) (g j) = .eq := Std.OrientedCmp.isLE_antisymm hfg' hgf
        have heq' : cmp (g j) (h j) = .eq := by
          rw [← hfh', Std.TransCmp.congr_left heq]
        constructor <;> intro k hk <;> rcases Nat.lt_succ_iff_lt_or_eq.1 hk with hk | rfl
        · exact hf k hk
        · exact heq
        · exact hg k hk
        · exact heq'
  obtain ⟨hf, hg⟩ := hbetween i (Nat.le_refl i)
  exact Ordering.isLE_iff_ne_gt.1 (Std.TransCmp.isLE_trans
    (Ordering.isLE_iff_ne_gt.2 (hle i hf)) (Ordering.isLE_iff_ne_gt.2 (hle' i hg)))

end Decides

/-! ## Lists that go on forever -/

/-- A list that goes on with the same element forever. -/
def padded (z : α) (l : List α) (i : Nat) : α :=
  l[i]?.getD z

section Padded

variable {z : α} {l m : List α}

@[simp] theorem padded_nil : padded z [] = fun _ => z := by
  ext i
  simp [padded]

@[simp] theorem padded_cons_zero (a : α) (l : List α) : padded z (a :: l) 0 = a := rfl

@[simp] theorem padded_cons_succ (a : α) (l : List α) (i : Nat) :
    padded z (a :: l) (i + 1) = padded z l i := by
  simp [padded]

theorem padded_map {β : Type} (t : α → β) (l : List α) (i : Nat) :
    padded (t z) (l.map t) i = t (padded z l i) := by
  cases hi : l[i]? <;> simp [padded, hi]

theorem padded_of_le {i : Nat} (hi : l.length ≤ i) : padded z l i = z := by
  simp [padded, hi]

/-- A list that ends with something else is no longer than one that goes on as it does. -/
theorem length_le_of_padded_eq (hl : ∀ hne : l ≠ [], l.getLast hne ≠ z)
    (hsame : ∀ i, padded z l i = padded z m i) : l.length ≤ m.length := by
  by_contra hlt
  have hne : l ≠ [] := by
    rintro rfl
    simp at hlt
  apply hl hne
  have hlast := hsame (l.length - 1)
  rw [padded_of_le (l := m) (by omega)] at hlast
  have hpos := List.length_pos_of_ne_nil hne
  rw [List.getLast_eq_getElem, ← hlast, padded, List.getElem?_eq_getElem (by omega)]
  rfl

variable [DecidableEq α]

/-- Elements at the end that go on anyway do not count. -/
theorem padded_rdropWhile (l : List α) (i : Nat) :
    padded z (l.rdropWhile (· == z)) i = padded z l i := by
  induction l using List.reverseRecOn with
  | nil => simp
  | append_singleton l a ih =>
      by_cases ha : a = z
      · rw [List.rdropWhile_concat_pos _ _ _ (by simpa using ha), ih]
        simp only [padded, List.getElem?_append]
        split
        · rfl
        · next hi =>
          rw [List.getElem?_eq_none (Nat.le_of_not_lt hi)]
          rcases i - l.length with _ | k <;> simp [ha]
      · rw [List.rdropWhile_concat_neg _ _ _ (by simpa using ha)]

/-- Lists are the same sequence if they are the same up to what goes on anyway. -/
theorem rdropWhile_eq_iff :
    l.rdropWhile (· == z) = m.rdropWhile (· == z) ↔ ∀ i, padded z l i = padded z m i := by
  constructor
  · intro heq i
    rw [← padded_rdropWhile l, heq, padded_rdropWhile]
  · intro hsame
    have hsame' : ∀ i, padded z (l.rdropWhile (· == z)) i = padded z (m.rdropWhile (· == z)) i := by
      simpa only [padded_rdropWhile] using hsame
    have hlast : ∀ l : List α, ∀ hne : l.rdropWhile (· == z) ≠ [],
        (l.rdropWhile (· == z)).getLast hne ≠ z := by
      intro l hne heq
      exact List.rdropWhile_last_not (· == z) l hne (by simpa using heq)
    have hlength := Nat.le_antisymm (length_le_of_padded_eq (hlast l) hsame')
      (length_le_of_padded_eq (hlast m) fun i => (hsame' i).symm)
    refine List.ext_getElem hlength fun i hi hi' => ?_
    simpa [padded, hi, hi'] using hsame' i

end Padded

end Lockstep
