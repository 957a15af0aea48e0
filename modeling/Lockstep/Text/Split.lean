/-!
# Cutting and trimming texts

`cut` divides a text at the first separator and `pieces` at every one. A cut
loses nothing but the separator, and its first part is free of it. `trim` takes
the blanks off both ends. Both matter: a requirement is read trimmed, and so is
each bound inside a range.
-/

namespace Lockstep.Text

/-! ## Separators -/

/-- The parts before and after the first `sep`, or nothing without one. -/
def cut (sep : Char) : List Char → Option (List Char × List Char)
  | [] => none
  | c :: rest =>
    if c = sep then some ([], rest)
    else (cut sep rest).map fun (before, after) => (c :: before, after)

/-- The stretches between separators, empty ones included. -/
def stretches (isSep : Char → Bool) : List Char → List (List Char)
  | [] => [[]]
  | c :: rest =>
    if isSep c then [] :: stretches isSep rest
    else match stretches isSep rest with
      | [] => [[c]]
      | first :: others => (c :: first) :: others

/-- The non-empty stretches between separators. -/
def pieces (isSep : Char → Bool) (cs : List Char) : List (List Char) :=
  (stretches isSep cs).filter fun piece => !piece.isEmpty

/-! ### Laws of `cut` -/

theorem eq_of_cut {sep : Char} {cs before after : List Char}
    (h : cut sep cs = some (before, after)) : cs = before ++ sep :: after := by
  induction cs generalizing before with
  | nil => simp [cut] at h
  | cons c rest ih =>
    by_cases hc : c = sep
    · simp only [cut, if_pos hc, Option.some.injEq, Prod.mk.injEq] at h
      obtain ⟨rfl, rfl⟩ := h
      simp [hc]
    · simp only [cut, if_neg hc, Option.map_eq_some_iff] at h
      obtain ⟨⟨b, a⟩, hcut, heq⟩ := h
      simp only [Prod.mk.injEq] at heq
      obtain ⟨rfl, rfl⟩ := heq
      simp [ih hcut]

theorem cut_append {sep : Char} {before : List Char} (h : sep ∉ before) (after : List Char) :
    cut sep (before ++ sep :: after) = some (before, after) := by
  induction before with
  | nil => simp [cut]
  | cons c rest ih =>
    have hc : c ≠ sep := fun e => h (by simp [e])
    simp [cut, hc, ih (fun m => h (by simp [m]))]

theorem not_mem_of_cut {sep : Char} {cs before after : List Char}
    (h : cut sep cs = some (before, after)) : sep ∉ before := by
  induction cs generalizing before with
  | nil => simp [cut] at h
  | cons c rest ih =>
    by_cases hc : c = sep
    · simp only [cut, if_pos hc, Option.some.injEq, Prod.mk.injEq] at h
      simp [← h.1]
    · simp only [cut, if_neg hc, Option.map_eq_some_iff] at h
      obtain ⟨⟨b, a⟩, hcut, heq⟩ := h
      simp only [Prod.mk.injEq] at heq
      obtain ⟨rfl, rfl⟩ := heq
      rw [List.mem_cons, not_or]
      exact ⟨fun e => hc e.symm, ih hcut⟩

/-! ## Blanks -/

/-- The Unicode property `White_Space`. -/
def isBlank (c : Char) : Bool :=
  let n := c.toNat
  (9 ≤ n && n ≤ 13) || n == 0x20 || n == 0x85 || n == 0xA0 || n == 0x1680 ||
    (0x2000 ≤ n && n ≤ 0x200A) || n == 0x2028 || n == 0x2029 || n == 0x202F ||
    n == 0x205F || n == 0x3000

/-- A text without the blanks at its two ends. -/
def trim (cs : List Char) : List Char :=
  ((cs.dropWhile isBlank).reverse.dropWhile isBlank).reverse

/-- Trimming a text that neither starts nor ends with a blank keeps it. -/
theorem trim_eq_self {cs : List Char} (first : ∀ c ∈ cs.head?, isBlank c = false)
    (last : ∀ c ∈ cs.getLast?, isBlank c = false) : trim cs = cs := by
  have keep : ∀ {l : List Char}, (∀ c ∈ l.head?, isBlank c = false) → l.dropWhile isBlank = l := by
    intro l h
    cases l with
    | nil => rfl
    | cons c r => simp [List.dropWhile, h c (by simp)]
  rw [trim, keep first, keep (by simpa using last), List.reverse_reverse]

end Lockstep.Text
