import Lockstep.Proofs.Segments
import Mathlib.Logic.Function.Basic

/-!
# Which versions are preordered

A comparison of versions can be turned round, and a version is the same as
itself. Versions without the qualifiers of a release and of what follows one are
totally preordered by their segments, and two of them are the same if they are
written alike but for trailing zeros and letter case (`Version.same_iff`). The
semantic order is a total preorder of all texts, whatever reads them and
whatever orders their pre-releases (`Version.ordered`).
-/

namespace Lockstep

namespace VersionOrder

variable {order : VersionOrder} {S : String → Prop}

theorem same_iff_eq {a b : String} : order.same a b = true ↔ order.compare a b = .eq := by
  unfold same
  exact beq_iff_eq

/-- In a preorder, to be the same is to be no later than each other. -/
theorem IsPreorderOn.equivalence (h : order.IsPreorderOn S) :
    Equivalence fun a b : {v // S v} => order.same a b = true := by
  simp only [same_iff_eq]
  have heq : ∀ a b, S a → S b →
      (order.compare a b = .eq ↔ order.compare a b ≠ .gt ∧ order.compare b a ≠ .gt) := by
    intro a b ha hb
    rw [h.swap a b ha hb]
    cases order.compare a b <;> simp
  constructor
  case refl =>
    rintro ⟨a, ha⟩
    exact h.compare_self ha
  case symm =>
    rintro ⟨a, ha⟩ ⟨b, hb⟩ hab
    show order.compare b a = .eq
    rw [h.swap a b ha hb, show order.compare a b = .eq from hab]
    rfl
  case trans =>
    rintro ⟨a, ha⟩ ⟨b, hb⟩ ⟨c, hc⟩ hab hbc
    obtain ⟨hab, hba⟩ := (heq a b ha hb).1 hab
    obtain ⟨hbc, hcb⟩ := (heq b c hb hc).1 hbc
    exact (heq a c ha hc).2 ⟨h.trans a b c ha hb hc hab hbc, h.trans c b a hc hb ha hcb hba⟩

end VersionOrder

namespace Version

open Text

/-! ## Spellings -/

/-- The segments of a version without trailing zeros, texts in lowercase. -/
def canonical (version : String) : List Segment :=
  ((segments version).map Segment.fold).rdropWhile (· == .number 0)

theorem compareSegments_eq_of_fold {as bs : List Segment}
    (h : as.map Segment.fold = bs.map Segment.fold) : compareSegments as bs = .eq := by
  induction as generalizing bs with
  | nil =>
      obtain rfl : bs = [] := by simpa using h.symm
      rfl
  | cons a as ih =>
      cases bs with
      | nil => simp at h
      | cons b bs =>
          rw [List.map_cons, List.map_cons, List.cons.injEq] at h
          unfold compareSegments
          rw [Segment.compare_eq_eq_iff.2 h.1, ih h.2]
          rfl

/-- A zero more at the end does not count. -/
theorem compareSegments_zero (as : List Segment) :
    compareSegments as (as ++ [.number 0]) = .eq := by
  induction as with
  | nil => rfl
  | cons a as ih =>
      rw [List.cons_append]
      unfold compareSegments
      rw [ih, Segment.compare_eq_eq_iff.2 rfl]
      rfl

theorem fold_ofPiece_eq {cs ds : List Char} (h : lowercase cs = lowercase ds) :
    (Segment.ofPiece cs).fold = (Segment.ofPiece ds).fold := by
  unfold Segment.ofPiece
  rw [number?_eq_of_lowercase_eq h, h]
  cases number? ds with
  | some n => rfl
  | none =>
      cases Qualifier.ofName? (String.ofList (lowercase ds)) with
      | some q => rfl
      | none => simp [Segment.fold, folded, h]

/-- Versions are the same if each piece of one has the lowercase form of its place in the other. -/
theorem same_of_lowercase {a b : String}
    (h : (pieces isSeparator a.toList).map lowercase =
      (pieces isSeparator b.toList).map lowercase) :
    segmentOrder.same a b = true := by
  have hfactors : Function.FactorsThrough (fun cs => (Segment.ofPiece cs).fold) lowercase :=
    fun _ _ => fold_ofPiece_eq
  have : Nonempty Segment := ⟨.number 0⟩
  obtain ⟨e, he⟩ := (Function.factorsThrough_iff _).1 hfactors
  have hfold : ∀ v : String, (segments v).map Segment.fold =
      ((pieces isSeparator v.toList).map lowercase).map e := by
    intro v
    unfold segments
    rw [List.map_map, List.map_map, ← he]
    rfl
  apply VersionOrder.same_iff_eq.2
  apply compareSegments_eq_of_fold
  rw [hfold, hfold, h]

theorem isSeparator_toLower (c : Char) : isSeparator c.toLower = isSeparator c := by
  have hletter : ∀ c, IsLatin c → isSeparator c = false := by
    intro c hc
    refine Bool.eq_false_iff.2 fun hsep => ?_
    rcases Bool.or_eq_true_iff.1 hsep with hsep | hsep <;>
      · rw [beq_iff_eq.1 hsep] at hc
        revert hc
        unfold IsLatin
        decide
  rcases toLower_eq_or c with hself | ⟨hc, hc', -⟩
  · rw [hself]
  · rw [hletter c hc, hletter _ hc']

/-- Latin letters count like those of the other case. -/
theorem same_of_toLower {a b : String} (h : a.toList.map Char.toLower = b.toList.map Char.toLower) :
    segmentOrder.same a b = true := by
  have hlower : ∀ cs : List Char, (pieces isSeparator (cs.map Char.toLower)).map lowercase =
      (pieces isSeparator cs).map lowercase := by
    intro cs
    rw [pieces_map isSeparator_toLower, List.map_map]
    exact List.map_congr_left fun piece _ => lowercase_map_toLower piece
  apply same_of_lowercase
  rw [← hlower a.toList, h, hlower]

/-- Zeros after a separator at the end of a version do not count. -/
theorem same_zeros (v : String) {sep : Char} (hsep : isSeparator sep = true) (n : Nat) :
    segmentOrder.same v (String.ofList (v.toList ++ sep :: List.replicate (n + 1) '0')) = true := by
  have hdecimal : isDecimal (List.replicate (n + 1) '0') = true := by
    simp [isDecimal, List.replicate_succ]
  have hpieces :
      pieces isSeparator (List.replicate (n + 1) '0') = [List.replicate (n + 1) '0'] := by
    apply pieces_of_free (by simp [List.replicate_succ])
    intro c hc
    rw [List.eq_of_mem_replicate hc]
    decide
  have hvalue : ∀ n, decimal (List.replicate n '0') = 0 := by
    intro n
    induction n with
    | zero => rfl
    | succ n ih => exact ih
  have hsegments : segments (String.ofList (v.toList ++ sep :: List.replicate (n + 1) '0')) =
      segments v ++ [.number 0] := by
    unfold segments
    rw [String.toList_ofList, pieces_append hsep, hpieces, List.map_append, List.map_singleton,
      ofPiece_of_isDecimal hdecimal, hvalue]
    rfl
  apply VersionOrder.same_iff_eq.2
  show compareSegments (segments v) (segments _) = .eq
  rw [hsegments]
  exact compareSegments_zero (segments v)

/-! ## Regular versions -/

/-- Regular versions are the same if they are written alike but for trailing zeros and the case of
letters, with one way to write each number and each qualifier. -/
theorem same_iff {a b : String} (ha : Regular a) (hb : Regular b) :
    segmentOrder.same a b = true ↔ canonical a = canonical b := by
  rw [VersionOrder.same_iff_eq, (decides_segmentOrder ha hb).eq_iff]
  unfold canonical
  rw [rdropWhile_eq_iff]
  have hfold : Segment.fold (.number 0) = .number 0 := rfl
  refine forall_congr' fun i => ?_
  rw [Segment.compare_eq_eq_iff, ← hfold, padded_map, padded_map, hfold]

theorem isPreorderOn_regular : segmentOrder.IsPreorderOn Regular where
  swap a b _ _ := oriented_segmentOrder a b
  trans _ _ _ ha hb hc :=
    (decides_segmentOrder ha hb).le_trans (decides_segmentOrder hb hc) (decides_segmentOrder ha hc)

/-! ## The laws of both orders -/

/-- What holds of an order of versions by their segments. -/
structure BySegments (order : VersionOrder) : Prop where
  /-- A comparison turned round comes to the opposite. -/
  swap : ∀ a b, order.compare b a = (order.compare a b).swap
  self : ∀ v, order.compare v v = .eq
  preorder : order.IsPreorderOn Regular
  /-- Regular versions are compared as sequences of segments with zeros without end. -/
  decides : ∀ a b, Regular a → Regular b → ∀ o, order.compare a b = o ↔
    Decides Segment.compare (padded (.number 0) (segments a)) (padded (.number 0) (segments b)) o
  equivalence : Equivalence fun a b : {v // Regular v} => order.same a b = true
  same_iff : ∀ a b, Regular a → Regular b → (order.same a b = true ↔ canonical a = canonical b)
  zeros : ∀ v sep n, isSeparator sep = true →
    order.same v (String.ofList (v.toList ++ sep :: List.replicate (n + 1) '0')) = true
  /-- Letter case as the lowercase forms of the pieces have it; a capital sigma at the end of a
  piece becomes a final one. -/
  lowercase : ∀ a b, (pieces isSeparator a.toList).map lowercase =
    (pieces isSeparator b.toList).map lowercase → order.same a b = true
  latin : ∀ a b, a.toList.map Char.toLower = b.toList.map Char.toLower → order.same a b = true

/-- What holds of an order of texts by what is read from them. -/
structure ByReading {α : Type} (read : String → Option α) (order : VersionOrder) : Prop where
  preorder : order.IsPreorder
  unread : ∀ a b, (read a).isSome = true → read b = none → order.compare a b = .gt

/-- Precedence by three numbers, and where these agree by pre-release. -/
def precedence {α : Type} (major minor patch : α → Nat) (pre : α → α → Ordering) :
    α → α → Ordering :=
  compareLex (compareOn major) (compareLex (compareOn minor) (compareLex (compareOn patch) pre))

theorem bySegments_segmentOrder : BySegments segmentOrder where
  swap := oriented_segmentOrder
  self v := VersionOrder.same_iff_eq.1 (oriented_segmentOrder.same_self v)
  preorder := isPreorderOn_regular
  decides a b ha hb o := by
    have hd := decides_segmentOrder ha hb
    constructor
    · rintro rfl
      exact hd
    · exact hd.unique
  equivalence := isPreorderOn_regular.equivalence
  same_iff _ _ := same_iff
  zeros v _ n hsep := same_zeros v hsep n
  lowercase _ _ := same_of_lowercase
  latin _ _ := same_of_toLower

theorem byReading_readOrder {α : Type} (read : String → Option α) (cmp : α → α → Ordering)
    [Std.TransCmp cmp] : ByReading read (readOrder read cmp) where
  preorder := VersionOrder.isPreorder_of_transCmp _
  unread _ _ := compare_readOrder_of_unread

instance {α : Type} {major minor patch : α → Nat} {pre : α → α → Ordering} [Std.TransCmp pre] :
    Std.TransCmp (precedence major minor patch pre) :=
  inferInstanceAs (Std.TransCmp (compareLex _ (compareLex _ (compareLex _ _))))

/-- The order by segments is a preorder of the regular versions that goes by nothing but their
segments. Semantic precedence is a preorder of all texts, and would be with any other reader and any
other preorder of pre-releases. -/
theorem ordered : BySegments segmentOrder ∧ ByReading Semantic.ofString? semanticOrder ∧
    semanticOrder = readOrder Semantic.ofString? (precedence Semantic.major Semantic.minor
      Semantic.patch fun x y => Semantic.comparePrerelease x.prerelease y.prerelease) ∧
    ∀ (α : Type) (read : String → Option α) (major minor patch : α → Nat)
      (pre : α → α → Ordering) [Std.TransCmp pre],
      ByReading read (readOrder read (precedence major minor patch pre)) := by
  refine ⟨bySegments_segmentOrder, ?_, semanticOrder_eq, ?_⟩
  · rw [semanticOrder_eq]
    exact byReading_readOrder _ _
  · intro α read major minor patch pre _
    exact byReading_readOrder _ _

/-- Two spellings of one version, a version on either side of it, and a text that is no semantic
version. -/
theorem ordered_over_spellings :
    (Regular "1.RC.0" ∧ Regular "01-cr" ∧ segmentOrder.same "1.RC.0" "01-cr" = true) ∧
    (Regular "1-Beta" ∧ Regular "1-x" ∧ segmentOrder.compare "1-Beta" "1.RC.0" ≠ .gt ∧
      segmentOrder.compare "1.RC.0" "1-x" ≠ .gt ∧ segmentOrder.compare "1-Beta" "1-x" ≠ .gt) ∧
    (Semantic.ofString? "0.0.1-a").isSome = true ∧ Semantic.ofString? "1.0" = none ∧
      semanticOrder.compare "0.0.1-a" "1.0" = .gt := by
  obtain ⟨hsegments, hsemantic, -⟩ := ordered
  have hrc : Regular "1.RC.0" := by decide +kernel
  have hcr : Regular "01-cr" := by decide +kernel
  have hbeta : Regular "1-Beta" := by decide +kernel
  have hx : Regular "1-x" := by decide +kernel
  have hcanonical : canonical "1.RC.0" = canonical "01-cr" := by decide +kernel
  have hlow : segmentOrder.compare "1-Beta" "1.RC.0" ≠ .gt := by decide +kernel
  have hhigh : segmentOrder.compare "1.RC.0" "1-x" ≠ .gt := by decide +kernel
  have hread : (Semantic.ofString? "0.0.1-a").isSome = true := by decide +kernel
  have hunread : Semantic.ofString? "1.0" = none := by decide +kernel
  refine ⟨⟨hrc, hcr, (hsegments.same_iff _ _ hrc hcr).2 hcanonical⟩, ⟨hbeta, hx, hlow, hhigh, ?_⟩,
    hread, hunread, hsemantic.unread _ _ hread hunread⟩
  exact hsegments.preorder.trans _ _ _ hbeta hrc hx hlow hhigh

/-- With the qualifiers of a release, to be the same is not transitive. -/
example : segmentOrder.same "1-ga" "1" = true ∧ segmentOrder.same "1" "1.0" = true ∧
    segmentOrder.same "1-ga" "1.0" = false := by
  decide +kernel

end Version

end Lockstep
