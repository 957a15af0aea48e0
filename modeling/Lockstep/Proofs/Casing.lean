import Lockstep.Version.Segments
import Mathlib.Data.List.Basic

/-!
# Letter case

Lowercase leaves what numbers are written with alone and makes nothing else
into it, so it does not change which texts are numbers
(`Version.number?_eq_of_lowercase_eq`). A Latin letter counts like its other
case wherever it stands (`lowercase_map_toLower`).
-/

namespace Lockstep

namespace Text

variable {c : Char}

/-- What holds of the first 128 characters holds of every ASCII character. -/
theorem forall_ascii {P : Char → Prop} (hall : ∀ n < 0x80, P (Char.ofNat n)) (hc : c.toNat < 0x80) :
    P c := by
  rw [← Char.ofNat_toNat c]
  exact hall c.toNat hc

/-! ## Digits have no case -/

/-- What a number is written with. -/
def isNumeric (c : Char) : Bool :=
  c.isDigit || c == '+'

theorem toNat_of_isNumeric (h : isNumeric c = true) : 0x2B ≤ c.toNat ∧ c.toNat ≤ 0x39 := by
  unfold isNumeric Char.isDigit at h
  rcases Bool.or_eq_true_iff.1 h with h | h
  · simp only [ge_iff_le, Bool.and_eq_true, decide_eq_true_eq, UInt32.le_iff_toNat_le] at h
    have hfirst : ('0' : Char).val.toNat = 0x30 := rfl
    have hlast : ('9' : Char).val.toNat = 0x39 := rfl
    show 0x2B ≤ c.val.toNat ∧ c.val.toNat ≤ 0x39
    omega
  · rw [beq_iff_eq.1 h]
    decide

/-- What the case table moves comes to stand above the digits. -/
theorem above_of_mem_lowercaseRanges :
    ∀ r ∈ lowercaseRanges.toList, 0x3A ≤ (r.first : Int) + r.shift := by
  decide +kernel

theorem isNumeric_ofNat {n : Nat} (h : 0x3A ≤ n) : isNumeric (Char.ofNat n) = false := by
  by_contra hnumeric
  obtain ⟨hlow, hhigh⟩ := toNat_of_isNumeric (by simpa using hnumeric)
  by_cases hvalid : n.isValidChar
  · have heq : Char.ofNat n = Char.ofNatAux n hvalid := dif_pos hvalid
    rw [heq] at hhigh
    exact absurd hhigh (Nat.not_le_of_lt h)
  · have heq : Char.ofNat n = '\x00' := dif_neg hvalid
    rw [heq] at hlow
    exact absurd hlow (by decide)

/-- Lowercase changes nothing, or neither what it changes nor what it begins with is numeric. -/
theorem lowerChar_eq_or (c : Char) : lowerChar c = [c] ∨
    isNumeric c = false ∧ (lowerChar c).all isNumeric = false := by
  by_cases hascii : c.toNat < 0x80
  · revert hascii
    apply forall_ascii
    decide +kernel
  · have hc : isNumeric c = false := by
      by_contra hnumeric
      have := toNat_of_isNumeric (by simpa using hnumeric)
      omega
    unfold lowerChar
    rw [if_neg hascii]
    split
    · exact Or.inr ⟨hc, rfl⟩
    · dsimp only
      split
      · next r hr =>
        split
        · right
          refine ⟨hc, ?_⟩
          have hin := Array.find?_some hr
          simp only [Bool.and_eq_true, decide_eq_true_eq] at hin
          have habove := above_of_mem_lowercaseRanges r
            (Array.mem_toList_iff.2 (Array.mem_of_find?_eq_some hr))
          rw [List.all_cons, isNumeric_ofNat (by omega), Bool.false_and]
        · exact Or.inl rfl
      · exact Or.inl rfl

theorem all_isNumeric_lowerAfter (before cs : List Char) :
    (lowerAfter before cs).all isNumeric = cs.all isNumeric := by
  induction cs generalizing before with
  | nil => rfl
  | cons c rest ih =>
      unfold lowerAfter
      rw [List.all_append, ih, List.all_cons]
      congr 1
      split
      · next hsigma =>
        have hc : isNumeric c = false := by
          by_contra hnumeric
          have := toNat_of_isNumeric (by simpa using hnumeric)
          simp only [Bool.and_eq_true, decide_eq_true_eq] at hsigma
          omega
        rw [hc]
        decide
      · rcases lowerChar_eq_or c with heq | ⟨hc, hlower⟩
        · simp [heq]
        · rw [hc, hlower]

theorem lowerAfter_of_numeric {cs : List Char} (h : cs.all isNumeric = true) (before : List Char) :
    lowerAfter before cs = cs := by
  induction cs generalizing before with
  | nil => rfl
  | cons c rest ih =>
      rw [List.all_cons, Bool.and_eq_true] at h
      obtain ⟨hlow, hhigh⟩ := toNat_of_isNumeric h.1
      have hsigma : c.toNat ≠ 0x3A3 := by omega
      have hlower : lowerChar c = [c] := by
        rcases lowerChar_eq_or c with heq | ⟨hc, -⟩
        · exact heq
        · rw [h.1] at hc
          cases hc
      unfold lowerAfter
      simp [hsigma, hlower, ih h.2]

end Text

namespace Version

open Text

theorem all_isNumeric_of_number? {cs : List Char} (h : (number? cs).isSome = true) :
    cs.all isNumeric = true := by
  have hdecimal : ∀ ds : List Char, isDecimal ds = true → ds.all isNumeric = true := by
    intro ds hds
    obtain ⟨-, hdigits⟩ := Bool.and_eq_true_iff.1 hds
    refine List.all_eq_true.2 fun c hc => ?_
    simp [isNumeric, List.all_eq_true.1 hdigits c hc]
  have hdigits : ∀ ds : List Char,
      (if isDecimal ds && decimal ds < numberBound then some (decimal ds) else none).isSome = true →
      ds.all isNumeric = true := by
    intro ds hsome
    by_cases hcond : (isDecimal ds && decide (decimal ds < numberBound)) = true
    · exact hdecimal ds (Bool.and_eq_true_iff.1 hcond).1
    · rw [if_neg hcond] at hsome
      cases hsome
  unfold number? at h
  split at h
  · rw [List.all_cons, hdigits _ h]
    decide
  · exact hdigits _ h

/-- Texts with the same lowercase form are the same number, if they are numbers. -/
theorem number?_eq_of_lowercase_eq {cs ds : List Char} (h : lowercase cs = lowercase ds) :
    number? cs = number? ds := by
  have hall : cs.all isNumeric = ds.all isNumeric := by
    rw [← all_isNumeric_lowerAfter [] cs, ← all_isNumeric_lowerAfter [] ds]
    exact congrArg (·.all isNumeric) h
  by_cases hcs : cs.all isNumeric = true
  · have hcs' : lowercase cs = cs := lowerAfter_of_numeric hcs []
    have hds' : lowercase ds = ds := lowerAfter_of_numeric (hall ▸ hcs) []
    rw [← hcs', ← hds', h]
  · have hnone : ∀ es : List Char, es.all isNumeric ≠ true → number? es = none := by
      intro es hes
      by_contra hsome
      exact hes (all_isNumeric_of_number? (Option.isSome_iff_ne_none.2 hsome))
    rw [hnone cs hcs, hnone ds (hall ▸ hcs)]

end Version

namespace Text

/-! ## Latin letters -/

/-- A character is in a range or in none, as the list of ranges says. -/
theorem inRanges_iff {ranges : Array (Nat × Nat)} {c : Char} :
    inRanges ranges c = true ↔ ∃ r ∈ ranges.toList, r.1 ≤ c.toNat ∧ c.toNat ≤ r.2 := by
  unfold inRanges
  rw [← Array.any_toList, List.any_eq_true]
  simp only [Bool.and_eq_true, decide_eq_true_eq]

/-- Letters without accents. -/
def IsLatin (c : Char) : Prop :=
  0x41 ≤ c.toNat ∧ c.toNat ≤ 0x5A ∨ 0x61 ≤ c.toNat ∧ c.toNat ≤ 0x7A

theorem isCased_of_isLatin {c : Char} (h : IsLatin c) : isCased c = true := by
  have hranges : (0x41, 0x5A) ∈ casedRanges.toList ∧ (0x61, 0x7A) ∈ casedRanges.toList := by
    decide +kernel
  refine inRanges_iff.2 ?_
  rcases h with h | h
  · exact ⟨_, hranges.1, h⟩
  · exact ⟨_, hranges.2, h⟩

theorem isCaseIgnorable_of_isLatin {c : Char} (h : IsLatin c) : isCaseIgnorable c = false := by
  have hranges : ∀ r ∈ caseIgnorableRanges.toList,
      r.2 < 0x41 ∨ 0x5A < r.1 ∧ r.2 < 0x61 ∨ 0x7A < r.1 := by
    decide +kernel
  refine Bool.eq_false_iff.2 fun hin => ?_
  obtain ⟨r, hr, hfirst, hlast⟩ := inRanges_iff.1 hin
  rcases h with h | h <;> rcases hranges r hr with hr | hr | hr <;> omega

/-- Nothing but capital letters changes, and they become small ones. -/
theorem toLower_eq_or (c : Char) : c.toLower = c ∨
    IsLatin c ∧ IsLatin c.toLower ∧ c.toLower.toLower = c.toLower := by
  by_cases hcapital : 0x41 ≤ c.toNat ∧ c.toNat ≤ 0x5A
  · have hlower : c.toLower.toNat = c.toNat + 0x20 ∧ c.toLower.toLower = c.toLower := by
      have hascii : c.toNat < 0x80 := by omega
      revert hcapital
      revert hascii
      apply forall_ascii
      decide +kernel
    exact Or.inr ⟨Or.inl hcapital, Or.inr (by omega), hlower.2⟩
  · left
    unfold Char.toLower
    rw [dif_neg]
    rintro ⟨hfirst, hlast⟩
    exact hcapital ⟨UInt32.le_iff_toNat_le.1 hfirst, UInt32.le_iff_toNat_le.1 hlast⟩

/-- A character and its lowercase form are alike in all that lowercase goes by. -/
theorem alike_toLower (c : Char) : lowerChar c.toLower = lowerChar c ∧
    isCased c.toLower = isCased c ∧ isCaseIgnorable c.toLower = isCaseIgnorable c ∧
      (c.toLower.toNat = 0x3A3 ↔ c.toNat = 0x3A3) := by
  rcases toLower_eq_or c with hself | ⟨hletter, hletter', hlower⟩
  · rw [hself]
    simp
  · have hnat : c.toNat ≤ 0x7A ∧ c.toLower.toNat ≤ 0x7A := by
      unfold IsLatin at hletter hletter'
      omega
    refine ⟨?_, ?_, ?_, by omega⟩
    · unfold lowerChar
      rw [if_pos (by omega), if_pos (by omega), hlower]
    · rw [isCased_of_isLatin hletter, isCased_of_isLatin hletter']
    · rw [isCaseIgnorable_of_isLatin hletter, isCaseIgnorable_of_isLatin hletter']

theorem meetsCased_map_toLower (cs : List Char) :
    meetsCased (cs.map Char.toLower) = meetsCased cs := by
  unfold meetsCased
  induction cs with
  | nil => rfl
  | cons c rest ih =>
      obtain ⟨-, hcased, hignorable, -⟩ := alike_toLower c
      rw [List.map_cons, List.dropWhile_cons, List.dropWhile_cons, hignorable]
      split
      · exact ih
      · simp [hcased]

theorem lowerAfter_map_toLower (before cs : List Char) :
    lowerAfter (before.map Char.toLower) (cs.map Char.toLower) = lowerAfter before cs := by
  induction cs generalizing before with
  | nil => rfl
  | cons c rest ih =>
      obtain ⟨hlower, -, -, hsigma⟩ := alike_toLower c
      rw [List.map_cons]
      unfold lowerAfter
      rw [← List.map_cons, ih, meetsCased_map_toLower, meetsCased_map_toLower, hlower]
      simp only [hsigma]

theorem lowercase_map_toLower (cs : List Char) :
    lowercase (cs.map Char.toLower) = lowercase cs :=
  lowerAfter_map_toLower [] cs

end Text

end Lockstep
