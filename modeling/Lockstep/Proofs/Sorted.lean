import Lockstep.Dependency
import Lockstep.Sorted.Map
import Mathlib.Data.List.Perm.Subperm
import Mathlib.Data.List.Sort

/-!
# More laws of sorted sets and maps

Sets are compared by inclusion and counted by `size`; maps are read by `get?`,
which determines them (`SortedMap.ext`). The stable sort is the insertion sort
of the library.
-/

namespace Lockstep

section Sorting

variable {α : Type} (le : α → α → Bool)

theorem insertBy_eq (a : α) (l : List α) :
    insertBy le a l = l.orderedInsert (fun a b => le a b = true) a := by
  induction l with
  | nil => rfl
  | cons b rest ih => rw [insertBy, ih, List.orderedInsert_cons]

theorem sortBy_eq (l : List α) : sortBy le l = l.insertionSort fun a b => le a b = true := by
  induction l with
  | nil => rfl
  | cons a rest ih => rw [sortBy, ih, insertBy_eq, List.insertionSort_cons]

end Sorting

namespace SortedSet

variable {α : Type} [Ord α]

/-! ## Inclusion -/

instance : HasSubset (SortedSet α) := ⟨fun s t => ∀ a, a ∈ s → a ∈ t⟩

theorem Subset.refl (s : SortedSet α) : s ⊆ s := fun _ h => h

theorem Subset.trans {s t u : SortedSet α} (hst : s ⊆ t) (htu : t ⊆ u) : s ⊆ u :=
  fun a h => htu a (hst a h)

theorem Subset.antisymm [Std.TransOrd α] {s t : SortedSet α} (hst : s ⊆ t) (hts : t ⊆ s) :
    s = t :=
  ext fun a => ⟨hst a, hts a⟩

theorem inter_subset_left [Std.LawfulEqOrd α] {s t : SortedSet α} : s.inter t ⊆ s :=
  fun _ h => (mem_inter.1 h).1

theorem inter_subset_right [Std.LawfulEqOrd α] {s t : SortedSet α} : s.inter t ⊆ t :=
  fun _ h => (mem_inter.1 h).2

theorem subset_inter [Std.LawfulEqOrd α] {s t u : SortedSet α} (ht : s ⊆ t) (hu : s ⊆ u) :
    s ⊆ t.inter u :=
  fun a h => mem_inter.2 ⟨ht a h, hu a h⟩

theorem union_subset_union [Std.TransOrd α] [Std.LawfulEqOrd α] {s t u : SortedSet α}
    (h : s ⊆ t) : s.union u ⊆ t.union u := by
  intro a ha
  rcases mem_union.1 ha with ha | ha
  · exact mem_union.2 (Or.inl (h a ha))
  · exact mem_union.2 (Or.inr ha)

theorem mem_of_mem_insertAll [Std.TransOrd α] [Std.LawfulEqOrd α] {as : List α}
    {s : SortedSet α} {a : α} (h : a ∈ s) : a ∈ s.insertAll as :=
  mem_insertAll.2 (Or.inr h)

/-- Only the members count, not the order in which they come. -/
theorem ofList_eq_of_perm [Std.TransOrd α] [Std.LawfulEqOrd α] {l m : List α} (h : l.Perm m) :
    ofList l = ofList m :=
  ext fun a => by rw [mem_ofList, mem_ofList, h.mem_iff]

theorem mem_symmDiff [Std.TransOrd α] [Std.LawfulEqOrd α] {s t : SortedSet α} {a : α} :
    a ∈ s.symmDiff t ↔ ¬(a ∈ s ↔ a ∈ t) := by
  unfold symmDiff
  rw [mem_union, mem_diff, mem_diff]
  tauto

/-- Sets that differ do so in some member. -/
theorem toList_symmDiff_ne_nil [Std.TransOrd α] [Std.LawfulEqOrd α] {s t : SortedSet α}
    (h : s ≠ t) : (s.symmDiff t).toList ≠ [] := by
  intro hnil
  apply h
  apply ext
  intro a
  have hnot : a ∉ s.symmDiff t := by
    rw [mem_def, hnil]
    exact List.not_mem_nil
  rw [mem_symmDiff] at hnot
  tauto

/-! ## Counting -/

theorem nodup_toList [Std.TransOrd α] (s : SortedSet α) : s.toList.Nodup :=
  s.increasing.nodup

/-- A new member is one more in the list. -/
theorem insert_perm [Std.TransOrd α] [Std.LawfulEqOrd α] {s : SortedSet α} {a : α} (h : a ∉ s) :
    (s.insert a).toList.Perm (a :: s.toList) := by
  refine (List.perm_ext_iff_of_nodup (nodup_toList _)
    (List.nodup_cons.2 ⟨h, s.nodup_toList⟩)).2 fun b => ?_
  rw [List.mem_cons]
  exact mem_insert

theorem size_le_of_subset [Std.TransOrd α] {s t : SortedSet α} (h : s ⊆ t) : s.size ≤ t.size :=
  (s.nodup_toList.subperm h).length_le

theorem size_ofList_le [Std.TransOrd α] [Std.LawfulEqOrd α] (l : List α) :
    (ofList l).size ≤ l.length :=
  ((ofList l).nodup_toList.subperm fun _ ha => mem_ofList.1 ha).length_le

theorem size_lt_of_subset [Std.TransOrd α] {s t : SortedSet α} (h : s ⊆ t) (hne : s ≠ t) :
    s.size < t.size := by
  refine Nat.lt_of_le_of_ne (size_le_of_subset h) ?_
  intro hsize
  have hperm : s.toList.Perm t.toList :=
    (s.nodup_toList.subperm h).perm_of_length_le (Nat.le_of_eq hsize.symm)
  exact hne (ext fun a => hperm.mem_iff)

end SortedSet

namespace Exclusions

/-- A larger set leaves out more. -/
theorem exclude_mono {s t : Exclusions} (h : s ⊆ t) {id : ModuleId} (hs : s.exclude id = true) :
    t.exclude id = true := by
  rw [exclude, SortedSet.any, List.any_eq_true] at hs ⊢
  obtain ⟨e, he, hcovers⟩ := hs
  exact ⟨e, h e he, hcovers⟩

theorem exclude_eq_false_of_subset {s t : Exclusions} (h : s ⊆ t) {id : ModuleId}
    (ht : t.exclude id = false) : s.exclude id = false := by
  rw [← Bool.not_eq_true] at ht ⊢
  exact fun hs => ht (exclude_mono h hs)

@[simp] theorem exclude_empty (id : ModuleId) : Exclusions.exclude ∅ id = false := rfl

end Exclusions

namespace SortedMap

variable {κ β γ : Type} [Ord κ]

/-! ## Entries -/

theorem nodup_keys [Std.TransOrd κ] (m : SortedMap κ β) : m.keys.Nodup :=
  m.increasing.nodup

theorem look_eq_some_iff [Std.TransOrd κ] [Std.LawfulEqOrd κ] {l : List (κ × β)}
    (h : Increasing (l.map Prod.fst)) {k : κ} {v : β} : look k l = some v ↔ (k, v) ∈ l := by
  induction l with
  | nil => simp [look]
  | cons e rest ih =>
      obtain ⟨a, w⟩ := e
      have hc := List.pairwise_cons.1 h
      rw [look, List.mem_cons]
      by_cases hk : compare k a = .eq
      · obtain rfl := Std.LawfulEqOrd.eq_of_compare hk
        rw [if_pos hk]
        constructor
        · intro hw
          exact Or.inl (by rw [Option.some.inj hw])
        · rintro (heq | hmem)
          · rw [(Prod.mk.inj heq).2]
          · have hlt := hc.1 k (List.mem_map.2 ⟨(k, v), hmem, rfl⟩)
            rw [hk] at hlt
            cases hlt
      · rw [if_neg hk, ih hc.2]
        constructor
        · exact Or.inr
        · rintro (heq | hmem)
          · exact absurd (by rw [(Prod.mk.inj heq).1]; exact Std.ReflCmp.compare_self) hk
          · exact hmem

theorem mem_entries_iff [Std.TransOrd κ] [Std.LawfulEqOrd κ] {m : SortedMap κ β} {k : κ}
    {v : β} : (k, v) ∈ m.entries ↔ m.get? k = some v :=
  (look_eq_some_iff m.increasing).symm

theorem mem_keys_iff [Std.TransOrd κ] [Std.LawfulEqOrd κ] {m : SortedMap κ β} {k : κ} :
    k ∈ m.keys ↔ ∃ v, m.get? k = some v := by
  rw [keys, List.mem_map]
  constructor
  · rintro ⟨⟨k', v⟩, hmem, rfl⟩
    exact ⟨v, mem_entries_iff.1 hmem⟩
  · rintro ⟨v, hv⟩
    exact ⟨(k, v), mem_entries_iff.2 hv, rfl⟩

theorem mem_values_iff [Std.TransOrd κ] [Std.LawfulEqOrd κ] {m : SortedMap κ β} {v : β} :
    v ∈ m.values ↔ ∃ k, m.get? k = some v := by
  rw [values, List.mem_map]
  constructor
  · rintro ⟨⟨k, v'⟩, hmem, rfl⟩
    exact ⟨k, mem_entries_iff.1 hmem⟩
  · rintro ⟨k, hv⟩
    exact ⟨(k, v), mem_entries_iff.2 hv, rfl⟩

theorem contains_iff {m : SortedMap κ β} {k : κ} :
    m.contains k = true ↔ ∃ v, m.get? k = some v := by
  rw [contains, Option.isSome_iff_exists]

/-- A search through the entries finds the one of the least key. -/
theorem find?_entries_eq_some_iff [Std.TransOrd κ] [Std.LawfulEqOrd κ] {m : SortedMap κ β}
    {p : κ × β → Bool} {k : κ} {v : β} : m.entries.find? p = some (k, v) ↔
      (m.get? k = some v ∧ p (k, v) = true) ∧
        ∀ k' v', m.get? k' = some v' → p (k', v') = true → (compare k k').isLE = true := by
  have hleast : ∀ k v, m.entries.find? p = some (k, v) →
      ∀ k' v', m.get? k' = some v' → p (k', v') = true → (compare k k').isLE = true := by
    intro k v hfind k' v' hget hp
    obtain ⟨-, before, after, hentries, hbefore⟩ := List.find?_eq_some_iff_append.1 hfind
    have hmem := mem_entries_iff.2 hget
    have hincreasing := m.increasing
    rw [hentries] at hmem hincreasing
    rcases List.mem_append.1 hmem with hmem | hmem
    · have hnot := hbefore _ hmem
      simp [hp] at hnot
    · rw [List.map_append, List.map_cons] at hincreasing
      rcases List.mem_cons.1 hmem with heq | hmem
      · obtain ⟨rfl, -⟩ := Prod.mk.inj heq
        simp [Std.ReflCmp.compare_self]
      · obtain ⟨-, hlater, -⟩ := List.pairwise_append.1 hincreasing
        have hlt := (List.pairwise_cons.1 hlater).1 k' (List.mem_map_of_mem hmem)
        simp [hlt]
  constructor
  · intro hfind
    refine ⟨⟨mem_entries_iff.1 (List.mem_of_find?_eq_some hfind), ?_⟩, hleast k v hfind⟩
    simpa using List.find?_some hfind
  · rintro ⟨⟨hget, hp⟩, hall⟩
    have hsome : (m.entries.find? p).isSome = true :=
      List.find?_isSome.2 ⟨(k, v), mem_entries_iff.2 hget, hp⟩
    obtain ⟨⟨k', v'⟩, hfind⟩ := Option.isSome_iff_exists.1 hsome
    have hget' := mem_entries_iff.1 (List.mem_of_find?_eq_some hfind)
    have hle := hall k' v' hget' (by simpa using List.find?_some hfind)
    have hge := hleast k' v' hfind k v hget hp
    obtain rfl := Std.LawfulEqOrd.eq_of_compare (Std.OrientedCmp.isLE_antisymm hle hge)
    rw [hfind, Option.some.inj (hget.symm.trans hget')]

/-- Maps with the same keys list them alike. -/
theorem keys_eq [Std.TransOrd κ] [Std.LawfulEqOrd κ] {m : SortedMap κ β} {n : SortedMap κ γ}
    (h : ∀ k, m.contains k = n.contains k) : m.keys = n.keys := by
  refine m.increasing.eq_of_mem_iff n.increasing fun k => ?_
  show k ∈ m.keys ↔ k ∈ n.keys
  rw [mem_keys_iff, mem_keys_iff, ← contains_iff, ← contains_iff, h k]

/-- A map is determined by what it gives for each key. -/
theorem ext [Std.TransOrd κ] [Std.LawfulEqOrd κ] {m n : SortedMap κ β}
    (h : ∀ k, m.get? k = n.get? k) : m = n := by
  have hmem : ∀ e, e ∈ m.entries ↔ e ∈ n.entries := by
    rintro ⟨k, v⟩
    rw [mem_entries_iff, mem_entries_iff, h k]
  have hperm : m.entries.Perm n.entries :=
    (List.perm_ext_iff_of_nodup (List.Nodup.of_map Prod.fst m.nodup_keys)
      (List.Nodup.of_map Prod.fst n.nodup_keys)).2 hmem
  obtain ⟨l, hl⟩ := m
  obtain ⟨r, hr⟩ := n
  have heq : l = r := by
    refine hperm.eq_of_pairwise ?_ (List.pairwise_map.1 hl) (List.pairwise_map.1 hr)
    intro a b _ _ hab hba
    have hgt := Std.OrientedCmp.gt_of_lt hab
    rw [hba] at hgt
    cases hgt
  subst heq
  rfl

/-! ## Reading after an operation -/

theorem get?_mapValues (f : κ → β → γ) (m : SortedMap κ β) [Std.TransOrd κ]
    [Std.LawfulEqOrd κ] (k : κ) : (m.mapValues f).get? k = (m.get? k).map (f k) := by
  obtain ⟨l, hl⟩ := m
  change look k (l.map fun e => (e.1, f e.1 e.2)) = (look k l).map (f k)
  clear hl
  induction l with
  | nil => rfl
  | cons e rest ih =>
      obtain ⟨a, v⟩ := e
      rw [List.map_cons, look, look]
      by_cases hk : compare k a = .eq
      · rw [if_pos hk, if_pos hk, Std.LawfulEqOrd.eq_of_compare hk]
        rfl
      · rw [if_neg hk, if_neg hk, ih]

theorem get?_modify [Std.TransOrd κ] [Std.LawfulEqOrd κ] [DecidableEq κ] (m : SortedMap κ β)
    (k k' : κ) (f : β → β) :
    (m.modify k f).get? k' = if k' = k then (m.get? k').map f else m.get? k' := by
  rw [modify, get?_mapValues]
  by_cases hk : k' = k
  · subst hk
    have hself : compare k' k' = .eq := Std.ReflCmp.compare_self
    simp only [hself, if_true]
  · have hne : compare k k' ≠ .eq := fun h => hk (Std.LawfulEqOrd.eq_of_compare h).symm
    simp only [if_neg hne, if_neg hk]
    cases m.get? k' <;> rfl

theorem get?_filter [Std.TransOrd κ] [Std.LawfulEqOrd κ] (p : κ → β → Bool)
    (m : SortedMap κ β) (k : κ) : (m.filter p).get? k = (m.get? k).filter (p k) := by
  ext v
  rw [← mem_entries_iff, Option.filter_eq_some_iff, ← mem_entries_iff]
  exact List.mem_filter

theorem get?_override [Std.TransOrd κ] [Std.LawfulEqOrd κ] [DecidableEq κ] (m n : SortedMap κ β)
    (k : κ) : (m.override n).get? k = (n.get? k).or (m.get? k) := by
  obtain ⟨l, hl⟩ := n
  change (l.foldl (fun acc e => acc.insert e.1 e.2) m).get? k = (look k l).or (m.get? k)
  induction l generalizing m with
  | nil => rfl
  | cons e rest ih =>
      obtain ⟨a, v⟩ := e
      have hc := List.pairwise_cons.1 hl
      rw [List.foldl_cons, ih (m.insert a v) hc.2, get?_insert, look]
      by_cases hk : k = a
      · subst hk
        have hself : compare k k = .eq := Std.ReflCmp.compare_self
        rw [look_eq_none hc.1, if_pos rfl, if_pos hself]
        rfl
      · rw [if_neg hk, if_neg fun h => hk (Std.LawfulEqOrd.eq_of_compare h)]

/-- Inserting some of the entries of a map, in order, keeps what each key gives. -/
theorem get?_foldl_insert [Std.TransOrd κ] [Std.LawfulEqOrd κ] [DecidableEq κ]
    (f : κ → β → Option γ) (m : SortedMap κ β) (k : κ) :
    (m.entries.foldl (fun acc e => match f e.1 e.2 with
      | some c => acc.insert e.1 c
      | none => acc) (∅ : SortedMap κ γ)).get? k = (m.get? k).bind (f k) := by
  obtain ⟨l, hl⟩ := m
  suffices h : ∀ acc : SortedMap κ γ, (l.foldl (fun acc e => match f e.1 e.2 with
      | some c => acc.insert e.1 c
      | none => acc) acc).get? k = ((look k l).bind (f k)).or (acc.get? k) by
    rw [h ∅, get?_empty, Option.or_none]
    rfl
  induction l with
  | nil => intro acc; rfl
  | cons e rest ih =>
      obtain ⟨a, v⟩ := e
      have hc := List.pairwise_cons.1 hl
      intro acc
      rw [List.foldl_cons, ih hc.2, look]
      by_cases hk : k = a
      · subst hk
        have hself : compare k k = .eq := Std.ReflCmp.compare_self
        rw [look_eq_none hc.1, if_pos hself]
        cases hf : f k v with
        | none => simp [hf]
        | some c => simp [hf, get?_insert]
      · rw [if_neg fun h => hk (Std.LawfulEqOrd.eq_of_compare h)]
        cases hf : f a v with
        | none => rfl
        | some c => simp only [get?_insert, if_neg hk]

end SortedMap

end Lockstep
