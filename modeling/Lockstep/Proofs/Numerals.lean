import Lockstep.Proofs.Segments

/-!
# Versions of numerals

A version may consist of numerals and nothing else. A numeral below 2^64 counts
as its number. One from there on is wide: it counts as text, below every
number, and is compared with other wide numerals as text. So such versions are
compared as lists of numbers unless a wide numeral decides otherwise
(`Numbered.numeric_iff_of_parts`).
-/

namespace Lockstep.Version

open Text

/-- Decimal digits, at least one. -/
abbrev Numeral := { ds : List Char // isDecimal ds = true }

abbrev Separator := { c : Char // isSeparator c = true }

namespace Numeral

/-- The number that a numeral denotes. -/
def value (n : Numeral) : Nat :=
  decimal n.1

/-- Too great for a number of 64 bits. -/
def Wide (n : Numeral) : Prop :=
  numberBound ≤ n.value

instance : DecidablePred Wide := fun n => inferInstanceAs (Decidable (numberBound ≤ n.value))

/-- What stands where a version has ended. -/
def zero : Numeral :=
  ⟨['0'], rfl⟩

/-- Wide numerals come before all others, and are compared digit by digit. -/
def compare (m n : Numeral) : Ordering :=
  if m.Wide then if n.Wide then Ord.compare (String.ofList m.1) (String.ofList n.1) else .lt
  else if n.Wide then .gt else Ord.compare m.value n.value

theorem ofPiece_eq (n : Numeral) : Segment.ofPiece n.1 =
    if n.Wide then .text (String.ofList n.1) else .number n.value := by
  rw [ofPiece_of_isDecimal n.2]
  by_cases hwide : n.Wide
  · have hnot : ¬decimal n.1 < numberBound := Nat.not_lt_of_le hwide
    rw [if_pos hwide, if_neg hnot]
  · have hless : decimal n.1 < numberBound := Nat.lt_of_not_le hwide
    rw [if_neg hwide, if_pos hless]
    rfl

theorem compare_ofPiece (m n : Numeral) :
    (Segment.ofPiece m.1).compare (Segment.ofPiece n.1) = m.compare n := by
  rw [ofPiece_eq, ofPiece_eq]
  unfold compare
  split <;> split
  · show Ord.compare (folded _) (folded _) = _
    unfold folded
    rw [String.toList_ofList, String.toList_ofList, lowercase_of_isDecimal m.2,
      lowercase_of_isDecimal n.2]
  all_goals rfl

theorem late_ofPiece (n : Numeral) : (Segment.ofPiece n.1).late = false := by
  rw [ofPiece_eq]
  split <;> rfl

/-- Numerals that count as the same denote the same number. -/
theorem value_eq_of_compare {m n : Numeral} (h : m.compare n = .eq) : m.value = n.value := by
  unfold compare at h
  split at h <;> split at h
  · unfold value
    rw [String.ofList_injective (Std.LawfulEqOrd.eq_of_compare h)]
  · cases h
  · cases h
  · exact Nat.compare_eq_eq.1 h

end Numeral

/-- A version of numerals, each but the first behind a separator. -/
structure Numbered where
  first : Numeral
  rest : List (Separator × Numeral) := []

namespace Numbered

def text (v : Numbered) : String :=
  String.ofList (v.first.1 ++ v.rest.flatMap fun x => x.1.1 :: x.2.1)

def numerals (v : Numbered) : List Numeral :=
  v.first :: v.rest.map Prod.snd

/-- The numbers that the numerals denote. -/
def numbers (v : Numbered) : List Nat :=
  v.numerals.map Numeral.value

theorem segments_text (v : Numbered) :
    segments v.text = v.numerals.map fun n => Segment.ofPiece n.1 := by
  have hpiece : ∀ n : Numeral, pieces isSeparator n.1 = [n.1] := by
    intro n
    obtain ⟨hne, hdigits⟩ := Bool.and_eq_true_iff.1 n.2
    apply pieces_of_free (by simpa using hne)
    exact fun c hc => isSeparator_of_isDigit (List.all_eq_true.1 hdigits c hc)
  obtain ⟨first, rest⟩ := v
  unfold segments text numerals
  rw [String.toList_ofList]
  induction rest generalizing first with
  | nil => simp [hpiece]
  | cons x rest ih =>
      rw [List.flatMap_cons, List.cons_append, pieces_append x.1.2, List.map_append, ih, hpiece]
      rfl

variable (v w : Numbered)

/-- The numeral in a place, which is zero where the version has ended. -/
def place (i : Nat) : Numeral :=
  padded .zero v.numerals i

theorem padded_numbers (i : Nat) : padded 0 v.numbers i = (v.place i).value :=
  padded_map (z := Numeral.zero) Numeral.value v.numerals i

/-- Versions of numerals are compared numeral by numeral. -/
theorem decides_compareNumeral :
    Decides Numeral.compare v.place w.place (segmentOrder.compare v.text w.text) := by
  have hlate : ∀ v : Numbered, ∀ s ∈ segments v.text, s.late = false := by
    intro v s hs
    rw [segments_text] at hs
    obtain ⟨n, -, rfl⟩ := List.mem_map.1 hs
    exact n.late_ofPiece
  have hplace : ∀ v : Numbered, ∀ i,
      padded (.number 0) (segments v.text) i = Segment.ofPiece (v.place i).1 := by
    intro v i
    rw [segments_text]
    exact padded_map (z := Numeral.zero) (fun n => Segment.ofPiece n.1) v.numerals i
  refine (decides_compareSegments (hlate v) (hlate w)).congr fun i => ?_
  rw [hplace, hplace, Numeral.compare_ofPiece]

/-- The first place where two versions do not count as the same. -/
structure Parts (i : Nat) : Prop where
  before : ∀ j < i, (v.place j).compare (w.place j) = .eq
  here : (v.place i).compare (w.place i) ≠ .eq

/-- Two versions are compared as the lists of their numbers with zeros without end. -/
def Numeric : Prop :=
  Decides Ord.compare (padded 0 v.numbers) (padded 0 w.numbers)
    (segmentOrder.compare v.text w.text)

variable {v w}

theorem Parts.numbers_eq {i : Nat} (h : v.Parts w i) :
    ∀ j < i, Ord.compare (padded 0 v.numbers j) (padded 0 w.numbers j) = .eq := by
  intro j hj
  rw [padded_numbers, padded_numbers, Numeral.value_eq_of_compare (h.before j hj)]
  exact Nat.compare_eq_eq.2 rfl

theorem Parts.numeric_iff {i : Nat} (h : v.Parts w i) : v.Numeric w ↔
    Decides Ord.compare (fun k => padded 0 v.numbers (i + k)) (fun k => padded 0 w.numbers (i + k))
      ((v.place i).compare (w.place i)) := by
  unfold Numeric
  rw [(decides_compareNumeral v w).eq_of_first h.before h.here, Decides.drop_iff h.numbers_eq]

/-- Numerals that are not wide are told apart as their numbers are. -/
theorem Parts.numeric_of_not_wide {i : Nat} (h : v.Parts w i) (hv : ¬(v.place i).Wide)
    (hw : ¬(w.place i).Wide) : v.Numeric w := by
  have hcompare : (v.place i).compare (w.place i) =
      Ord.compare (padded 0 v.numbers i) (padded 0 w.numbers i) := by
    rw [padded_numbers, padded_numbers]
    unfold Numeral.compare
    rw [if_neg hv, if_neg hw]
  rw [h.numeric_iff]
  exact .first 0 (fun k hk => absurd hk (Nat.not_lt_zero k)) hcompare.symm h.here

/-- A wide numeral is put below one that is not, though its number is greater. -/
theorem Parts.not_numeric_of_wide {i : Nat} (h : v.Parts w i)
    (hone : ¬((v.place i).Wide ↔ (w.place i).Wide)) : ¬v.Numeric w := by
  rw [h.numeric_iff]
  intro hd
  have hdiffers : Ord.compare (padded 0 v.numbers (i + 0)) (padded 0 w.numbers (i + 0)) =
      ((v.place i).compare (w.place i)).swap ∧ (v.place i).compare (w.place i) ≠ .eq := by
    refine ⟨?_, h.here⟩
    rw [Nat.add_zero, padded_numbers, padded_numbers]
    unfold Numeral.compare
    by_cases hv : (v.place i).Wide
    · have hw : ¬(w.place i).Wide := fun hw => hone (iff_of_true hv hw)
      rw [if_pos hv, if_neg hw]
      exact Nat.compare_eq_gt.2 (Nat.lt_of_lt_of_le (Nat.lt_of_not_le hw) hv)
    · have hw : (w.place i).Wide := by
        by_contra hw
        exact hone (iff_of_false hv hw)
      rw [if_neg hv, if_pos hw]
      exact Nat.compare_eq_lt.2 (Nat.lt_of_lt_of_le (Nat.lt_of_not_le hv) hw)
  have heq := hd.eq_of_first (i := 0) (fun k hk => absurd hk (Nat.not_lt_zero k)) (by
    rw [hdiffers.1]
    simpa using hdiffers.2)
  rw [hdiffers.1] at heq
  revert heq hdiffers
  cases (v.place i).compare (w.place i) <;> simp

theorem numeric_of_no_parts (h : ∀ i, ¬v.Parts w i) : v.Numeric w := by
  have hsame : ∀ i, (v.place i).compare (w.place i) = .eq := by
    intro i
    induction i using Nat.strong_induction_on with
    | _ i ih =>
        by_contra hhere
        exact h i ⟨ih, hhere⟩
  unfold Numeric
  rw [(decides_compareNumeral v w).eq_iff.2 hsame]
  apply Decides.never
  intro i
  rw [padded_numbers, padded_numbers, Numeral.value_eq_of_compare (hsame i)]
  exact Nat.compare_eq_eq.2 rfl

theorem not_wide_place (h : ∀ n ∈ v.numerals, ¬n.Wide) (i : Nat) : ¬(v.place i).Wide := by
  unfold place padded
  cases hi : v.numerals[i]? with
  | none => decide
  | some n => exact h n (List.mem_of_getElem? hi)

/-- Versions of numerals are compared as lists of numbers if and only if, where they part, neither
numeral is wide, or both are and stand to each other as the numbers from there on do. In particular
they are if no numeral is wide. -/
theorem numeric_iff_of_parts (v w : Numbered) :
    (v.Numeric w ↔ ∀ i, v.Parts w i → (¬(v.place i).Wide ∧ ¬(w.place i).Wide) ∨
      (v.place i).Wide ∧ (w.place i).Wide ∧ Decides Ord.compare
        (fun k => padded 0 v.numbers (i + k)) (fun k => padded 0 w.numbers (i + k))
        (Ord.compare (String.ofList (v.place i).1) (String.ofList (w.place i).1))) ∧
    ((∀ n ∈ v.numerals, ¬n.Wide) → (∀ n ∈ w.numerals, ¬n.Wide) → v.Numeric w) := by
  have hboth : ∀ i, v.Parts w i → (v.place i).Wide → (w.place i).Wide → (v.Numeric w ↔
      Decides Ord.compare (fun k => padded 0 v.numbers (i + k))
        (fun k => padded 0 w.numbers (i + k))
        (Ord.compare (String.ofList (v.place i).1) (String.ofList (w.place i).1))) := by
    intro i hi hv hw
    rw [hi.numeric_iff, Numeral.compare, if_pos hv, if_pos hw]
  -- Without wide numerals, the versions part at two that are not wide.
  suffices hiff : _ from ⟨hiff, fun hv hw => hiff.2 fun i hi =>
    .inl ⟨not_wide_place hv i, not_wide_place hw i⟩⟩
  refine ⟨?parted, ?decided⟩
  case parted =>
    intro h i hi
    by_cases hv : (v.place i).Wide <;> by_cases hw : (w.place i).Wide
    · exact .inr ⟨hv, hw, (hboth i hi hv hw).1 h⟩
    · exact absurd h (hi.not_numeric_of_wide fun hiff => hw (hiff.1 hv))
    · exact absurd h (hi.not_numeric_of_wide fun hiff => hv (hiff.2 hw))
    · exact .inl ⟨hv, hw⟩
  case decided =>
    intro h
    by_cases hparts : ∃ i, v.Parts w i
    · obtain ⟨i, hi⟩ := hparts
      rcases h i hi with ⟨hv, hw⟩ | ⟨hv, hw, hd⟩
      · exact hi.numeric_of_not_wide hv hw
      · exact (hboth i hi hv hw).2 hd
    · exact numeric_of_no_parts (not_exists.1 hparts)

/-- The number 2^64 is put below 1, as a text. -/
theorem not_numeric_of_wide_below_one :
    ¬Numbered.Numeric ⟨⟨"18446744073709551616".toList, by decide⟩, []⟩
      ⟨⟨"1".toList, by decide⟩, []⟩ := by
  intro h
  have hgt : segmentOrder.compare "18446744073709551616" "1" = .gt :=
    h.eq_of_first (i := 0) (fun j hj => absurd hj (Nat.not_lt_zero j)) (by decide)
  revert hgt
  decide

end Numbered

end Lockstep.Version
