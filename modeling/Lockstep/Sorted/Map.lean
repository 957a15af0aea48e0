import Lockstep.Sorted.Set

/-!
# Finite maps in key order

A map is a list of entries whose keys strictly increase. `get?_insert` and
`get?_insertNew` describe the two ways to write an entry: the last write wins,
or the first one does.
-/

namespace Lockstep

/-- A finite map, as the list of its entries in increasing order of the keys. -/
structure SortedMap (κ β : Type) [Ord κ] where
  entries : List (κ × β)
  increasing : Increasing (entries.map Prod.fst)
deriving DecidableEq

namespace SortedMap

variable {κ β γ : Type} [Ord κ]

/-! ## Entries of an increasing list -/

/-- Writes `k ↦ f old`, where `old` is the present value, into its place. -/
def write (k : κ) (f : Option β → β) : List (κ × β) → List (κ × β)
  | [] => [(k, f none)]
  | (k', v) :: rest =>
    match compare k k' with
    | .lt => (k, f none) :: (k', v) :: rest
    | .eq => (k', f (some v)) :: rest
    | .gt => (k', v) :: write k f rest

/-- Writing places the key and changes no other. -/
theorem keys_write (k : κ) (f : Option β → β) (l : List (κ × β)) :
    (write k f l).map Prod.fst = SortedSet.place k (l.map Prod.fst) := by
  induction l with
  | nil => rfl
  | cons e rest ih =>
    simp only [write, List.map_cons, SortedSet.place]
    split <;> simp_all

/-! ## Operations -/

instance : EmptyCollection (SortedMap κ β) := ⟨⟨[], increasing_nil⟩⟩

instance : Inhabited (SortedMap κ β) := ⟨∅⟩

def keys (m : SortedMap κ β) : List κ :=
  m.entries.map Prod.fst

def values (m : SortedMap κ β) : List β :=
  m.entries.map Prod.snd

def size (m : SortedMap κ β) : Nat :=
  m.entries.length

def isEmpty (m : SortedMap κ β) : Bool :=
  m.entries.isEmpty

/-- The value of a key in a list of entries. -/
def look (k : κ) : List (κ × β) → Option β
  | [] => none
  | (k', v) :: rest => if compare k k' = .eq then some v else look k rest

def get? (m : SortedMap κ β) (k : κ) : Option β :=
  look k m.entries

def contains (m : SortedMap κ β) (k : κ) : Bool :=
  (m.get? k).isSome

/-- Writes `k ↦ f old`, where `old` is the present value. -/
def alter [Std.TransOrd κ] (k : κ) (f : Option β → β) (m : SortedMap κ β) : SortedMap κ β :=
  ⟨write k f m.entries, keys_write k f m.entries ▸ SortedSet.increasing_place k m.increasing⟩

/-- The last write of a key wins. -/
def insert [Std.TransOrd κ] (k : κ) (v : β) (m : SortedMap κ β) : SortedMap κ β :=
  m.alter k fun _ => v

/-- The first write of a key wins. -/
def insertNew [Std.TransOrd κ] (k : κ) (v : β) (m : SortedMap κ β) : SortedMap κ β :=
  m.alter k fun old => old.getD v

def ofList [Std.TransOrd κ] (l : List (κ × β)) : SortedMap κ β :=
  l.foldl (fun m (k, v) => m.insert k v) ∅

/-- The entries of both maps; where both have a key, the value is that of the second. -/
def override [Std.TransOrd κ] (m n : SortedMap κ β) : SortedMap κ β :=
  n.entries.foldl (fun acc (k, v) => acc.insert k v) m

def mapValues (f : κ → β → γ) (m : SortedMap κ β) : SortedMap κ γ :=
  ⟨m.entries.map fun (k, v) => (k, f k v), by
    simpa [List.map_map, Function.comp_def] using m.increasing⟩

/-- Updates the value of a key that is there. -/
def modify (k : κ) (f : β → β) (m : SortedMap κ β) : SortedMap κ β :=
  m.mapValues fun k' v => if compare k k' = .eq then f v else v

def filter (p : κ → β → Bool) (m : SortedMap κ β) : SortedMap κ β :=
  ⟨m.entries.filter fun (k, v) => p k v,
    m.increasing.sublist (List.filter_sublist.map Prod.fst)⟩

/-! ## Laws -/

@[simp] theorem get?_empty (k : κ) : (∅ : SortedMap κ β).get? k = none := rfl

/-- A key below every key of a list is not in it. -/
theorem look_eq_none {k : κ} {l : List (κ × β)} (h : ∀ b ∈ l.map Prod.fst, compare k b = .lt) :
    look k l = none := by
  induction l with
  | nil => rfl
  | cons e rest ih =>
    obtain ⟨a, v⟩ := e
    have ha : compare k a = .lt := h a (by simp)
    rw [look, ha, if_neg (by decide)]
    exact ih fun b hb => h b (by simp only [List.map_cons, List.mem_cons]; exact Or.inr hb)

theorem look_write [Std.TransOrd κ] [Std.LawfulEqOrd κ] [DecidableEq κ] (k k' : κ)
    (f : Option β → β) {l : List (κ × β)} (h : Increasing (l.map Prod.fst)) :
    look k' (write k f l) = if k' = k then some (f (look k l)) else look k' l := by
  have self : ∀ a : κ, compare a a = .eq := fun _ => Std.ReflCmp.compare_self
  have other : ∀ {a b : κ}, a ≠ b → compare a b ≠ .eq := fun ne e =>
    ne (Std.LawfulEqOrd.eq_of_compare e)
  induction l with
  | nil =>
    by_cases e : k' = k
    · subst e; simp [write, look]
    · simp [write, look, other e, e]
  | cons e rest ih =>
    obtain ⟨a, v⟩ := e
    have hc := List.pairwise_cons.1 h
    have ih := ih hc.2
    simp only [write]
    split
    · next hlt =>
      have hk : look k ((a, v) :: rest) = none := look_eq_none fun b hb => by
        simp only [List.map_cons, List.mem_cons] at hb
        rcases hb with rfl | hb
        · exact hlt
        · exact Std.TransCmp.lt_trans hlt (hc.1 b hb)
      by_cases e : k' = k
      · subst e
        rw [hk, look, self, if_pos rfl, if_pos rfl]
      · rw [if_neg e, look, if_neg (other e)]
    · next heq =>
      obtain rfl := Std.LawfulEqOrd.eq_of_compare heq
      by_cases e : k' = k
      · subst e
        simp only [look, self, if_true]
      · simp only [look, if_neg (other e), if_neg e]
    · next hgt =>
      have hne : compare k a ≠ .eq := by rw [hgt]; decide
      by_cases e : k' = k
      · subst e
        simp only [look, if_neg hne, ih, if_true]
      · simp only [look, ih, if_neg e]

theorem get?_alter [Std.TransOrd κ] [Std.LawfulEqOrd κ] [DecidableEq κ] (m : SortedMap κ β)
    (k k' : κ) (f : Option β → β) :
    (m.alter k f).get? k' = if k' = k then some (f (m.get? k)) else m.get? k' :=
  look_write k k' f m.increasing

theorem get?_insert [Std.TransOrd κ] [Std.LawfulEqOrd κ] [DecidableEq κ] (m : SortedMap κ β)
    (k k' : κ) (v : β) : (m.insert k v).get? k' = if k' = k then some v else m.get? k' :=
  get?_alter m k k' _

theorem get?_insertNew [Std.TransOrd κ] [Std.LawfulEqOrd κ] [DecidableEq κ] (m : SortedMap κ β)
    (k k' : κ) (v : β) :
    (m.insertNew k v).get? k' = if k' = k then some ((m.get? k).getD v) else m.get? k' :=
  get?_alter m k k' _

end SortedMap

end Lockstep
