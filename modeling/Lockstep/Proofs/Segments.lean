import Lockstep.Proofs.Casing
import Lockstep.Proofs.Padding

/-!
# Segments in order

Segments are totally preordered: qualifiers before a release come first, then
other text, the qualifiers from a release on, and numbers (`Segment.compare_eq`).
That the order of versions is not goes back to one thing alone. The end of a
version counts as the number zero against every segment but the qualifiers from
a release on (`Segment.compareEnd_eq`), which come before that number. Without
them a version is the sequence of its segments with zeros without end
(`decides_compareSegments`).
-/

namespace Lockstep

/-! ## Cutting at separators -/

namespace Text

variable {isSep : Char → Bool}

theorem stretches_eq (isSep : Char → Bool) (cs : List Char) :
    stretches isSep cs = cs.splitOnP isSep := by
  induction cs with
  | nil => rfl
  | cons c rest ih =>
      unfold stretches
      rw [List.splitOnP_cons_eq_if_modifyHead, ih]
      split
      · rfl
      · cases hrest : rest.splitOnP isSep with
        | nil => exact absurd hrest (List.splitOnP_ne_nil isSep rest)
        | cons first others => rfl

theorem pieces_append {sep : Char} (hsep : isSep sep = true) (cs ds : List Char) :
    pieces isSep (cs ++ sep :: ds) = pieces isSep cs ++ pieces isSep ds := by
  unfold pieces
  simp only [stretches_eq]
  rw [List.splitOnP_append_cons _ _ hsep, List.filter_append]

theorem stretches_map {t : Char → Char} (h : ∀ c, isSep (t c) = isSep c) (cs : List Char) :
    stretches isSep (cs.map t) = (stretches isSep cs).map (·.map t) := by
  induction cs with
  | nil => rfl
  | cons c rest ih =>
      rw [List.map_cons]
      unfold stretches
      rw [h, ih]
      split
      · rfl
      · cases stretches isSep rest <;> rfl

theorem pieces_map {t : Char → Char} (h : ∀ c, isSep (t c) = isSep c) (cs : List Char) :
    pieces isSep (cs.map t) = (pieces isSep cs).map (·.map t) := by
  unfold pieces
  rw [stretches_map h, List.filter_map]
  congr 2
  ext piece
  simp

theorem pieces_of_free {cs : List Char} (hne : cs ≠ []) (h : ∀ c ∈ cs, isSep c = false) :
    pieces isSep cs = [cs] := by
  unfold pieces
  rw [stretches_eq, List.splitOnP_eq_singleton h]
  simp [hne]

end Text

namespace Version

open Text

/-! ## Names of qualifiers -/

namespace Qualifier

/-- Every name with what it names. -/
def names : List (String × Qualifier) :=
  [("alpha", alpha), ("a", alpha), ("beta", beta), ("b", beta), ("milestone", milestone),
    ("m", milestone), ("rc", rc), ("cr", rc), ("snapshot", snapshot), ("ga", release),
    ("final", release), ("release", release), ("sp", sp)]

theorem mem_names_of_ofName? {name : String} {q : Qualifier} (h : ofName? name = some q) :
    (name, q) ∈ names := by
  unfold ofName? at h
  split at h <;> simp_all [names]

end Qualifier

/-! ## Decimal pieces -/

theorem isSeparator_of_isDigit {c : Char} (h : c.isDigit = true) : isSeparator c = false := by
  refine Bool.eq_false_iff.2 fun hsep => ?_
  rcases Bool.or_eq_true_iff.1 hsep with hsep | hsep <;>
    · rw [beq_iff_eq.1 hsep] at h
      revert h
      decide

theorem number?_of_isDecimal {ds : List Char} (h : isDecimal ds = true) :
    number? ds = if decimal ds < numberBound then some (decimal ds) else none := by
  have hplus : ∀ rest, ds ≠ '+' :: rest := by
    rintro rest rfl
    simp [isDecimal] at h
  unfold number?
  split
  · next rest => exact absurd rfl (hplus rest)
  · simp [h]

theorem lowercase_of_isDecimal {ds : List Char} (h : isDecimal ds = true) : lowercase ds = ds := by
  obtain ⟨-, hdigits⟩ := Bool.and_eq_true_iff.1 h
  refine lowerAfter_of_numeric (List.all_eq_true.2 fun c hc => ?_) []
  simp [isNumeric, List.all_eq_true.1 hdigits c hc]

/-- No qualifier is named by digits. -/
theorem ofName?_of_isDecimal {ds : List Char} (h : isDecimal ds = true) :
    Qualifier.ofName? (String.ofList (lowercase ds)) = none := by
  obtain ⟨-, hdigits⟩ := Bool.and_eq_true_iff.1 h
  have hletters : ∀ x ∈ Qualifier.names, x.1.toList.all Char.isDigit = false := by decide
  rw [lowercase_of_isDecimal h]
  cases hname : Qualifier.ofName? (String.ofList ds) with
  | none => rfl
  | some q =>
      have hletter := hletters _ (Qualifier.mem_names_of_ofName? hname)
      rw [String.toList_ofList, hdigits] at hletter
      cases hletter

/-- Digits are a number below the bound, and text from there on. -/
theorem ofPiece_of_isDecimal {ds : List Char} (h : isDecimal ds = true) :
    Segment.ofPiece ds =
      if decimal ds < numberBound then .number (decimal ds) else .text (String.ofList ds) := by
  unfold Segment.ofPiece
  rw [number?_of_isDecimal h, ofName?_of_isDecimal h]
  by_cases hbound : decimal ds < numberBound <;> simp [hbound]

/-! ## The order of segments -/

namespace Segment

/-- Kinds of segments from the lowest to the highest: qualifiers before a release, other text, the
qualifiers from a release on, numbers. -/
def tier : Segment → Nat
  | qualifier q => if Qualifier.release.rank ≤ q.rank then 2 else 0
  | text _ => 1
  | number _ => 3

/-- The place of a segment among those of its kind that are not text. -/
def place : Segment → Nat
  | number n => n
  | qualifier q => q.rank
  | text _ => 0

/-- What a text is compared by. -/
def wording : Segment → String
  | text s => folded s
  | _ => ""

theorem compare_eq :
    Segment.compare =
      compareLex (compareOn tier) (compareLex (compareOn place) (compareOn wording)) := by
  funext a b
  cases a <;> cases b
  case number.number a b => simp [Segment.compare, compareLex, compareOn, tier, place, wording]
  case text.text s t => simp [Segment.compare, compareLex, compareOn, tier, place, wording]
  case qualifier.qualifier p q => cases p <;> cases q <;> rfl
  case number.qualifier n q => cases q <;> rfl
  case qualifier.number q n => cases q <;> rfl
  case qualifier.text q s => cases q <;> rfl
  case text.qualifier s q => cases q <;> rfl
  all_goals rfl

instance : Std.TransCmp Segment.compare := by
  rw [compare_eq]
  infer_instance

/-- Segments that compare as equal differ in nothing but the case of a text. -/
def fold : Segment → Segment
  | text s => text (folded s)
  | s => s

theorem compare_eq_eq_iff {a b : Segment} : a.compare b = .eq ↔ a.fold = b.fold := by
  cases a <;> cases b
  case qualifier.qualifier p q => cases p <;> cases q <;> decide
  case qualifier.text q s =>
    cases q <;> simp only [Segment.compare, fold, reduceCtorEq, iff_false] <;> decide
  case text.qualifier s q =>
    cases q <;> simp only [Segment.compare, fold, reduceCtorEq, iff_false] <;> decide
  all_goals simp [Segment.compare, fold]

/-- A qualifier from a release on. -/
def late : Segment → Bool
  | qualifier q => Qualifier.release.rank ≤ q.rank
  | _ => false

/-- The end of a version is like the number zero, except for a qualifier from a release on. -/
theorem compareEnd_eq {s : Segment} (h : s.late = false) :
    s.compareEnd = s.compare (.number 0) := by
  cases s with
  | number n => rfl
  | text s => rfl
  | qualifier q =>
      have hlt : q.rank < Qualifier.release.rank := by simpa [late] using h
      show Ord.compare q.rank Qualifier.release.rank = .lt
      exact Nat.compare_eq_lt.2 hlt

end Segment

/-! ## Versions as sequences of segments -/

theorem decides_compareSegments {as bs : List Segment} (ha : ∀ s ∈ as, s.late = false)
    (hb : ∀ s ∈ bs, s.late = false) :
    Decides Segment.compare (padded (.number 0) as) (padded (.number 0) bs)
      (compareSegments as bs) := by
  have hrest : ∀ as : List Segment, (∀ s ∈ as, s.late = false) →
      Decides Segment.compare (padded (.number 0) as) (fun _ => .number 0) (compareRest as) := by
    intro as
    induction as with
    | nil => exact fun _ => .never fun i => by simp [Std.ReflCmp.compare_self]
    | cons s rest ih =>
        intro hs
        rw [List.forall_mem_cons] at hs
        unfold compareRest
        rw [Segment.compareEnd_eq hs.1]
        exact .cons (by simpa using ih hs.2)
  induction as generalizing bs with
  | nil =>
      rw [padded_nil]
      cases bs <;> exact (hrest _ hb).swap
  | cons a as ih =>
      cases bs with
      | nil =>
          rw [padded_nil]
          exact hrest (a :: as) ha
      | cons b bs =>
          rw [List.forall_mem_cons] at ha hb
          exact .cons (by simpa using ih ha.2 hb.2)

/-! ## Versions before a release -/

/-- None of the segments is named after a release or what follows one, whatever the case. -/
def Regular (version : String) : Prop :=
  ∀ piece ∈ pieces isSeparator version.toList,
    String.ofList (lowercase piece) ∉ ["sp", "ga", "final", "release"]

instance : DecidablePred Regular := fun version =>
  inferInstanceAs (Decidable (∀ piece ∈ pieces isSeparator version.toList, _))

theorem Regular.late_eq_false {version : String} (h : Regular version) {s : Segment}
    (hs : s ∈ segments version) : s.late = false := by
  obtain ⟨piece, hpiece, rfl⟩ := List.mem_map.1 hs
  have hlate : ∀ x ∈ Qualifier.names, Qualifier.release.rank ≤ x.2.rank →
      x.1 ∈ ["sp", "ga", "final", "release"] := by decide
  unfold Segment.ofPiece
  split
  · rfl
  · split
    · next q hq =>
      refine decide_eq_false fun hrank => ?_
      exact h piece hpiece (hlate _ (Qualifier.mem_names_of_ofName? hq) hrank)
    · rfl

/-- The order of regular versions is that of the sequences of their segments. -/
theorem decides_segmentOrder {a b : String} (ha : Regular a) (hb : Regular b) :
    Decides Segment.compare (padded (.number 0) (segments a)) (padded (.number 0) (segments b))
      (segmentOrder.compare a b) :=
  decides_compareSegments (fun _ => ha.late_eq_false) (fun _ => hb.late_eq_false)

end Version

end Lockstep
