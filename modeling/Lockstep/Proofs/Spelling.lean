import Lockstep.Dependency
import Lockstep.Proofs.Routes
import Mathlib.Data.List.DropRight

/-!
# Spellings

A requirement is read off the text between blanks. That text is a version, or two ends in brackets
with a comma between them, or one version in square brackets (`Spelled`), and just these texts are
read (`Requirement.ofString_eq_ok_iff`). What is read has versions without commas and without blanks
around them (`Legible`), and these requirements are the ones that are read off the text they write
(`Requirement.ofString_text_iff`). Identities, coordinates and exclusions are read off the very text
that they write (`texts_read_back`).
-/

namespace Lockstep

/-! ## Blanks around a text -/

namespace Text

variable {cs t : List Char}

/-- The text neither starts nor ends with a blank. -/
structure Tidy (t : List Char) : Prop where
  first : ∀ c ∈ t.head?, isBlank c = false
  last : ∀ c ∈ t.getLast?, isBlank c = false

/-- The text without the blanks around it. -/
structure Trimmed (cs t : List Char) : Prop where
  around : ∃ before after, cs = before ++ (t ++ after) ∧
    (∀ c ∈ before, isBlank c = true) ∧ ∀ c ∈ after, isBlank c = true
  tidy : Tidy t

theorem trim_eq_rdropWhile (cs : List Char) :
    trim cs = (cs.dropWhile isBlank).rdropWhile isBlank :=
  rfl

theorem trimmed_trim (cs : List Char) : Trimmed cs (trim cs) := by
  rw [trim_eq_rdropWhile]
  constructor
  case around =>
    refine ⟨cs.takeWhile isBlank, (cs.dropWhile isBlank).rtakeWhile isBlank, ?_,
      fun c hc => List.mem_takeWhile_imp hc, fun c hc => List.mem_rtakeWhile_imp hc⟩
    rw [List.rdropWhile_append_rtakeWhile, List.takeWhile_append_dropWhile]
  case tidy =>
    constructor
    case first =>
      intro c hc
      obtain ⟨after, hafter⟩ := List.rdropWhile_prefix isBlank (cs.dropWhile isBlank)
      have hhead : (cs.dropWhile isBlank).head? = some c := by
        rw [← hafter, List.head?_append, Option.mem_def.1 hc]
        rfl
      have hnot := List.head?_dropWhile_not isBlank cs
      rwa [hhead] at hnot
    case last =>
      intro c hc
      obtain ⟨hne, rfl⟩ := List.mem_getLast?_eq_getLast hc
      simpa using List.rdropWhile_last_not isBlank (cs.dropWhile isBlank) hne

theorem Tidy.trim_eq (h : Tidy t) : trim t = t :=
  trim_eq_self h.first h.last

theorem Trimmed.trim_eq (h : Trimmed cs t) : trim cs = t := by
  obtain ⟨before, after, rfl, hbefore, hafter⟩ := h.around
  have hend : (t ++ after).rdropWhile isBlank = t.rdropWhile isBlank := by
    have hreverse : ∀ c ∈ after.reverse, isBlank c = true := by simpa using hafter
    unfold List.rdropWhile
    rw [List.reverse_append, List.dropWhile_append_of_pos hreverse]
  rw [trim_eq_rdropWhile, List.dropWhile_append_of_pos hbefore]
  cases t with
  | nil =>
      rw [List.nil_append, List.dropWhile_eq_nil_iff.2 hafter]
      rfl
  | cons c rest =>
      have hkept : ∀ rest, (c :: rest).dropWhile isBlank = c :: rest := fun rest =>
        List.dropWhile_cons_of_neg (by simp [h.tidy.first c rfl])
      have htrim := h.tidy.trim_eq
      rw [trim_eq_rdropWhile, hkept] at htrim
      rw [List.cons_append, hkept, ← List.cons_append, hend, htrim]

theorem trimmed_iff : Trimmed cs t ↔ t = trim cs :=
  ⟨fun h => h.trim_eq.symm, fun h => h ▸ trimmed_trim cs⟩

theorem mem_of_mem_trim {c : Char} (hc : c ∈ trim cs) : c ∈ cs := by
  obtain ⟨before, after, heq, -, -⟩ := (trimmed_trim cs).around
  rw [heq]
  exact List.mem_append_right _ (List.mem_append_left _ hc)

/-- Nothing is left of a text if and only if it is blank. -/
theorem trim_ne_nil_iff : trim cs ≠ [] ↔ ∃ c ∈ cs, isBlank c = false := by
  constructor
  · intro hne
    obtain ⟨c, rest, heq⟩ := List.exists_cons_of_ne_nil hne
    have hc := (trimmed_trim cs).tidy.first c (by rw [heq]; rfl)
    exact ⟨c, mem_of_mem_trim (by rw [heq]; exact List.mem_cons_self), hc⟩
  · rintro ⟨c, hc, hblank⟩ hnil
    obtain ⟨before, after, heq, hbefore, hafter⟩ := (trimmed_trim cs).around
    rw [hnil, List.nil_append] at heq
    rw [heq, List.mem_append] at hc
    rcases hc with hc | hc
    · rw [hbefore c hc] at hblank
      cases hblank
    · rw [hafter c hc] at hblank
      cases hblank

/-! ## Separators -/

theorem cut_eq_some_iff {sep : Char} {before after : List Char} :
    cut sep cs = some (before, after) ↔ cs = before ++ sep :: after ∧ sep ∉ before := by
  constructor
  · intro h
    exact ⟨eq_of_cut h, not_mem_of_cut h⟩
  · rintro ⟨rfl, h⟩
    exact cut_append h after

theorem cut_eq_none_iff {sep : Char} : cut sep cs = none ↔ sep ∉ cs := by
  constructor
  · intro h hmem
    obtain ⟨before, after, rfl, hbefore⟩ := List.eq_append_cons_of_mem hmem
    rw [cut_append hbefore] at h
    cases h
  · intro h
    cases hcut : cut sep cs with
    | none => rfl
    | some parts => exact absurd (by simp [eq_of_cut hcut]) h

theorem count_eq_one_iff {sep : Char} : cs.count sep = 1 ↔
    ∃ before after, cs = before ++ sep :: after ∧ sep ∉ before ∧ sep ∉ after := by
  constructor
  · intro h
    have hmem : sep ∈ cs := List.count_pos_iff.1 (by omega)
    obtain ⟨before, after, rfl, hbefore⟩ := List.eq_append_cons_of_mem hmem
    rw [List.count_append, List.count_cons_self, List.count_eq_zero.2 hbefore] at h
    exact ⟨before, after, rfl, hbefore, List.count_eq_zero.1 (by omega)⟩
  · rintro ⟨before, after, rfl, hbefore, hafter⟩
    rw [List.count_append, List.count_cons_self, List.count_eq_zero.2 hbefore,
      List.count_eq_zero.2 hafter]

end Text

open Text (Tidy Trimmed)

/-! ## Bounds -/

/-- The bound can be read off its version: a text without commas and without blanks around it. -/
structure Bound.Legible (b : Bound) : Prop where
  written : b.version ≠ ""
  tidy : Tidy b.version.toList
  whole : ',' ∉ b.version.toList

namespace VersionRange

variable {t inner : List Char} {first last : Char} {low high : Bool} {r : VersionRange}

theorem opening?_isSome_iff : (opening? first).isSome = true ↔ first = '[' ∨ first = '(' := by
  unfold opening?
  split <;> simp_all

theorem closing?_isSome_iff : (closing? last).isSome = true ↔ last = ']' ∨ last = ')' := by
  unfold closing?
  split <;> simp_all

theorem opening?_eq_true_iff : opening? first = some true ↔ first = '[' := by
  unfold opening?
  split <;> simp_all

theorem closing?_eq_true_iff : closing? last = some true ↔ last = ']' := by
  unfold closing?
  split <;> simp_all

theorem legible_of_bound? (h : ',' ∉ t) {inclusive : Bool} :
    ∀ b ∈ bound? t inclusive, b.Legible := by
  intro b hb
  unfold bound? at hb
  dsimp only at hb
  split at hb
  · cases hb
  · next hne =>
    obtain rfl := Option.some.inj hb
    refine ⟨?_, ?_, ?_⟩
    · simpa using hne
    · rw [String.toList_ofList]
      exact (Text.trimmed_trim t).tidy
    · rw [String.toList_ofList]
      exact fun hmem => h (Text.mem_of_mem_trim hmem)

/-- A legible bound is read off its version. -/
theorem bound?_version {b : Bound} (h : b.Legible) :
    bound? b.version.toList b.inclusive = some b := by
  unfold bound?
  rw [h.tidy.trim_eq]
  simp [h.written]

/-! ## Ranges -/

/-- The texts that spell a range. -/
inductive Spelled : VersionRange → List Char → Prop
  | ends {first last : Char} {low high : Bool} {lower upper : List Char}
      (hfirst : opening? first = some low) (hlast : closing? last = some high)
      (hlower : ',' ∉ lower) (hupper : ',' ∉ upper) :
      Spelled ⟨bound? lower low, bound? upper high⟩ (first :: (lower ++ ',' :: upper ++ [last]))
  | single {version : List Char} (hwhole : ',' ∉ version) (hne : Text.trim version ≠ []) :
      Spelled ⟨bound? version true, bound? version true⟩ ('[' :: (version ++ [']']))

theorem ofChars?_bracketed (hfirst : opening? first = some low)
    (hlast : closing? last = some high) :
    ofChars? (first :: (inner ++ [last])) = ofInner? low high inner := by
  simp [ofChars?, hfirst, hlast]

/-- What is read between brackets spells two ends or one version. -/
theorem spelled_of_ofInner? (hfirst : opening? first = some low) (hlast : closing? last = some high)
    (h : ofInner? low high inner = some r) : r.Spelled (first :: (inner ++ [last])) := by
  unfold ofInner? at h
  split at h
  · next lower upper hcut =>
    obtain ⟨rfl, hlower⟩ := Text.cut_eq_some_iff.1 hcut
    split at h
    · cases h
    · next hupper =>
      obtain rfl := Option.some.inj h
      exact .ends hfirst hlast hlower (by simpa using hupper)
  · next hcut =>
    split at h
    · next hsingle =>
      obtain rfl := Option.some.inj h
      simp only [Bool.and_eq_true, Bool.not_eq_true', List.isEmpty_eq_false_iff] at hsingle
      obtain ⟨⟨rfl, rfl⟩, hne⟩ := hsingle
      rw [opening?_eq_true_iff.1 hfirst, closing?_eq_true_iff.1 hlast]
      exact .single (Text.cut_eq_none_iff.1 hcut) hne
    · cases h

theorem ofChars?_eq_some_iff : ofChars? t = some r ↔ r.Spelled t := by
  constructor
  · intro h
    unfold ofChars? at h
    split at h
    · cases h
    · next first rest =>
      split at h
      · next low high hfirst hlast =>
        obtain ⟨last, hlast, hhigh⟩ := Option.bind_eq_some_iff.1 hlast
        obtain ⟨inner, rfl⟩ := List.getLast?_eq_some_iff.1 hlast
        rw [List.dropLast_concat] at h
        exact spelled_of_ofInner? hfirst hhigh h
      · cases h
  · intro h
    cases h with
    | ends hfirst hlast hlower hupper =>
        rw [ofChars?_bracketed hfirst hlast, ofInner?, Text.cut_append hlower]
        simp [hupper]
    | single hwhole hne =>
        rw [ofChars?_bracketed (opening?_eq_true_iff.2 rfl) (closing?_eq_true_iff.2 rfl), ofInner?,
          Text.cut_eq_none_iff.2 hwhole]
        simp [hne]

/-- The texts that spell some range: between brackets, with one comma, or with none, and then not
blank and in square brackets. -/
theorem exists_spelled_iff : (∃ r : VersionRange, r.Spelled t) ↔
    ∃ first inner last, t = first :: (inner ++ [last]) ∧ (first = '[' ∨ first = '(') ∧
      (last = ']' ∨ last = ')') ∧ (inner.count ',' = 1 ∨ inner.count ',' = 0 ∧
        (∃ c ∈ inner, Text.isBlank c = false) ∧ first = '[' ∧ last = ']') := by
  constructor
  · rintro ⟨r, h⟩
    cases h with
    | ends hfirst hlast hlower hupper =>
        refine ⟨_, _, _, rfl, opening?_isSome_iff.1 (by rw [hfirst]; rfl),
          closing?_isSome_iff.1 (by rw [hlast]; rfl), .inl ?_⟩
        exact Text.count_eq_one_iff.2 ⟨_, _, rfl, hlower, hupper⟩
    | single hwhole hne =>
        exact ⟨_, _, _, rfl, .inl rfl, .inl rfl,
          .inr ⟨List.count_eq_zero.2 hwhole, Text.trim_ne_nil_iff.1 hne, rfl, rfl⟩⟩
  · rintro ⟨first, inner, last, rfl, hfirst, hlast, hone | ⟨hnone, hblank, rfl, rfl⟩⟩
    · obtain ⟨lower, upper, rfl, hlower, hupper⟩ := Text.count_eq_one_iff.1 hone
      obtain ⟨low, hlow⟩ := Option.isSome_iff_exists.1 (opening?_isSome_iff.2 hfirst)
      obtain ⟨high, hhigh⟩ := Option.isSome_iff_exists.1 (closing?_isSome_iff.2 hlast)
      exact ⟨_, .ends hlow hhigh hlower hupper⟩
    · exact ⟨_, .single (List.count_eq_zero.1 hnone) (Text.trim_ne_nil_iff.2 hblank)⟩

theorem Spelled.tidy (h : r.Spelled t) : Tidy t := by
  obtain ⟨first, inner, last, rfl, hfirst, hlast, -⟩ := exists_spelled_iff.1 ⟨r, h⟩
  constructor
  case first =>
    intro c hc
    obtain rfl := Option.some.inj hc
    rcases hfirst with rfl | rfl <;> decide
  case last =>
    intro c hc
    rw [← List.cons_append, List.getLast?_concat] at hc
    obtain rfl := Option.some.inj hc
    rcases hlast with rfl | rfl <;> decide

/-- The bounds of the range can be read. -/
structure Legible (r : VersionRange) : Prop where
  lower : ∀ b ∈ r.lower, b.Legible
  upper : ∀ b ∈ r.upper, b.Legible

theorem Spelled.legible (h : r.Spelled t) : r.Legible := by
  cases h with
  | ends _ _ hlower hupper => exact ⟨legible_of_bound? hlower, legible_of_bound? hupper⟩
  | single hwhole => exact ⟨legible_of_bound? hwhole, legible_of_bound? hwhole⟩

/-! ## Ranges as they are written -/

/-- What is written for an end. -/
def ending (b : Option Bound) : List Char :=
  ((b.map Bound.version).getD "").toList

/-- Whether an end is written with a square bracket. -/
def square (b : Option Bound) : Bool :=
  (b.map Bound.inclusive).getD false

/-- One version stands for both ends. -/
def Single (r : VersionRange) (version : String) : Prop :=
  r = ⟨some ⟨version, true⟩, some ⟨version, true⟩⟩

theorem toList_text_of_single {version : String} (h : r.Single version) :
    r.text.toList = '[' :: (version.toList ++ [']']) := by
  subst h
  simp [text]

theorem toList_text (h : ∀ version, ¬r.Single version) : r.text.toList =
    (if square r.lower then '[' else '(') ::
      (ending r.lower ++ ',' :: ending r.upper ++ [if square r.upper then ']' else ')']) := by
  have hends : r.text = (if square r.lower then "[" else "(") ++ String.ofList (ending r.lower) ++
      "," ++ String.ofList (ending r.upper) ++ (if square r.upper then "]" else ")") := by
    unfold ending square
    rw [String.ofList_toList, String.ofList_toList]
    unfold text
    split
    · next l u hlower hupper =>
      refine if_neg fun ⟨hsame, hinclusive⟩ => h l.version ?_
      obtain ⟨lower, upper⟩ := r
      obtain rfl : lower = some l := hlower
      obtain rfl : upper = some u := hupper
      rw [Single, ← hinclusive, ← hsame]
    · rfl
  rw [hends]
  cases square r.lower <;> cases square r.upper <;> simp

theorem bound?_ending {b : Option Bound} (h : ∀ b' ∈ b, b'.Legible) :
    bound? (ending b) (square b) = b := by
  cases b with
  | none => rfl
  | some b => exact bound?_version (h b rfl)

theorem comma_not_mem_ending {b : Option Bound} (h : ∀ b' ∈ b, b'.Legible) : ',' ∉ ending b := by
  cases b with
  | none => simp [ending]
  | some b => exact (h b rfl).whole

/-- A range whose bounds can be read is spelled by the text that it writes. -/
theorem Legible.spelled_text (h : r.Legible) : r.Spelled r.text.toList := by
  by_cases hsingle : ∃ version, r.Single version
  · obtain ⟨version, hsingle⟩ := hsingle
    rw [toList_text_of_single hsingle]
    subst hsingle
    have hversion := h.lower _ rfl
    have hread := bound?_version hversion
    have hspelled := Spelled.single hversion.whole
      (by rw [hversion.tidy.trim_eq]; simpa using hversion.written)
    rwa [hread] at hspelled
  · have hfirst : opening? (if square r.lower then '[' else '(') = some (square r.lower) := by
      split <;> simp_all [opening?]
    have hlast : closing? (if square r.upper then ']' else ')') = some (square r.upper) := by
      split <;> simp_all [closing?]
    have hends := Spelled.ends hfirst hlast (comma_not_mem_ending h.lower)
      (comma_not_mem_ending h.upper)
    rw [toList_text fun version hv => hsingle ⟨version, hv⟩]
    rwa [bound?_ending h.lower, bound?_ending h.upper] at hends

end VersionRange

/-! ## Requirements -/

namespace Requirement

variable {s : String} {t : List Char} {r : Requirement}

/-- The texts without blanks around them that spell a requirement. -/
inductive Spelled : Requirement → List Char → Prop
  | exact {t : List Char} (hne : t ≠ []) (hplain : ∀ c ∈ t.head?, c ≠ '[' ∧ c ≠ '(') :
      Spelled (.exact (String.ofList t)) t
  | range {t : List Char} {r : VersionRange} (h : r.Spelled t) : Spelled (.range r) t

theorem ofString_range (ht : Tidy t) {r : VersionRange} :
    VersionRange.ofString (String.ofList t) = .ok r ↔ r.Spelled t := by
  unfold VersionRange.ofString
  rw [String.toList_ofList, ht.trim_eq, ← VersionRange.ofChars?_eq_some_iff]
  cases VersionRange.ofChars? t <;> simp

/-- A requirement is read off the text between blanks, which spells it. -/
theorem ofString_eq_ok_iff : ofString s = .ok r ↔ ∃ t, Trimmed s.toList t ∧ r.Spelled t := by
  simp only [Text.trimmed_iff, exists_eq_left]
  have htidy := (Text.trimmed_trim s.toList).tidy
  unfold ofString
  split
  · next hnil =>
    rw [hnil]
    constructor
    · intro h
      cases h
    · intro h
      cases h with
      | exact hne => exact absurd rfl hne
      | range h => cases h
  · next first rest heq =>
    rw [heq] at htidy ⊢
    dsimp only
    split
    · next hbracket =>
      constructor
      · intro h
        cases hread : VersionRange.ofString (String.ofList (first :: rest)) with
        | error fault =>
            rw [hread] at h
            cases h
        | ok range =>
            rw [hread] at h
            cases h
            exact .range ((ofString_range htidy).1 hread)
      · intro h
        cases h with
        | exact _ hplain =>
            obtain ⟨hsquare, hround⟩ := hplain first rfl
            rcases hbracket with rfl | rfl
            · exact absurd rfl hsquare
            · exact absurd rfl hround
        | range h =>
            rw [(ofString_range htidy).2 h]
            rfl
    · next hbracket =>
      constructor
      · intro h
        cases h
        exact .exact (List.cons_ne_nil _ _) fun c hc => by
          obtain rfl := Option.some.inj hc
          exact not_or.1 hbracket
      · intro h
        cases h with
        | exact => rfl
        | range h =>
            obtain ⟨_, _, _, heq, hfirst, -⟩ := VersionRange.exists_spelled_iff.1 ⟨_, h⟩
            obtain ⟨rfl, -⟩ := List.cons.inj heq
            exact absurd hfirst hbracket

/-- Just these texts are read: not blank, and what starts with a bracket spells a range. -/
theorem exists_ofString_eq_ok_iff : (∃ r, ofString s = .ok r) ↔
    ∃ t, Trimmed s.toList t ∧ t ≠ [] ∧ ((∃ c ∈ t.head?, c = '[' ∨ c = '(') →
      ∃ r : VersionRange, r.Spelled t) := by
  simp only [ofString_eq_ok_iff]
  rw [exists_comm]
  refine exists_congr fun t => ?_
  rw [exists_and_left]
  refine and_congr_right fun _ => ?_
  constructor
  · rintro ⟨r, h⟩
    cases h with
    | exact hne hplain =>
        refine ⟨hne, fun ⟨c, hc, hbracket⟩ => ?_⟩
        exact absurd hbracket (not_or.2 (hplain c hc))
    | range h =>
        refine ⟨?_, fun _ => ⟨_, h⟩⟩
        rintro rfl
        cases h
  · rintro ⟨hne, hrange⟩
    by_cases hbracket : ∃ c ∈ t.head?, c = '[' ∨ c = '('
    · obtain ⟨r, h⟩ := hrange hbracket
      exact ⟨_, .range h⟩
    · exact ⟨_, .exact hne fun c hc => not_or.1 fun h => hbracket ⟨c, hc, h⟩⟩

/-- The requirement can be read off the text it writes: a preference cannot. -/
def Legible : Requirement → Prop
  | exact v => v ≠ "" ∧ Tidy v.toList ∧ ∀ c ∈ v.toList.head?, c ≠ '[' ∧ c ≠ '('
  | range r => r.Legible
  | prefer _ => False

theorem legible_of_ofString (h : ofString s = .ok r) : r.Legible := by
  obtain ⟨t, ht, h⟩ := ofString_eq_ok_iff.1 h
  cases h with
  | exact hne hplain =>
      refine ⟨by simpa using hne, ?_, ?_⟩
      · rw [String.toList_ofList]
        exact ht.tidy
      · rwa [String.toList_ofList]
  | range h => exact h.legible

/-- What is read is read again off the text it writes, and nothing else is. -/
theorem ofString_text_iff : ofString r.text = .ok r ↔ r.Legible := by
  constructor
  · exact legible_of_ofString
  · intro h
    rw [ofString_eq_ok_iff]
    cases r with
    | exact v =>
        obtain ⟨hne, htidy, hplain⟩ := h
        refine ⟨v.toList, Text.trimmed_iff.2 htidy.trim_eq.symm, ?_⟩
        have hspelled := Spelled.exact (by simpa using hne) hplain
        rwa [String.ofList_toList] at hspelled
    | range r =>
        have hspelled := VersionRange.Legible.spelled_text h
        exact ⟨r.text.toList, Text.trimmed_iff.2 hspelled.tidy.trim_eq.symm, .range hspelled⟩
    | prefer v => exact h.elim

end Requirement

/-! ## Names -/

/-- The coordinates can be read back: they have three parts that are not empty and have no colon. -/
structure Coordinates.Proper (c : Coordinates) : Prop where
  id : c.id.Proper
  version : c.version ≠ "" ∧ ':' ∉ c.version.toList

theorem Coordinates.toList_text (c : Coordinates) : c.text.toList =
    c.id.group.toList ++ ':' :: (c.id.name.toList ++ ':' :: c.version.toList) := by
  simp [text, ModuleId.text]

theorem Coordinates.ofString?_eq_some_iff {s : String} {c : Coordinates} :
    ofString? s = some c ↔ c.Proper ∧ c.text = s := by
  constructor
  · intro h
    unfold ofString? at h
    split at h
    · cases h
    · next group rest hcut =>
      split at h
      · cases h
      · next name version hcut' =>
        split at h
        · cases h
        · next hread =>
          obtain rfl := Option.some.inj h
          simp only [Bool.or_eq_true, not_or, List.isEmpty_iff, List.contains_iff_mem] at hread
          obtain ⟨⟨⟨hgroup, hname⟩, hversion⟩, hcolon⟩ := hread
          refine ⟨⟨⟨⟨?_, ?_⟩, ?_, ?_⟩, ?_, ?_⟩, ?_⟩
          · simpa using hgroup
          · simpa using Text.not_mem_of_cut hcut
          · simpa using hname
          · simpa using Text.not_mem_of_cut hcut'
          · simpa using hversion
          · simpa using hcolon
          · apply String.toList_injective
            rw [toList_text, Text.eq_of_cut hcut, Text.eq_of_cut hcut']
            simp
  · rintro ⟨⟨⟨⟨hgroup, hgroup'⟩, hname, hname'⟩, hversion, hversion'⟩, rfl⟩
    unfold ofString?
    rw [toList_text, Text.cut_append hgroup']
    dsimp only
    rw [Text.cut_append hname']
    simp [hgroup, hname, hversion, hversion']

/-- The exclusion can be read back: it is a module that can be, or a group that is not empty and has
no colon. -/
def Exclusion.Proper (e : Exclusion) : Prop :=
  match e.name with
  | some name => ModuleId.Proper ⟨e.group, name⟩
  | none => e.group ≠ "" ∧ ':' ∉ e.group.toList

theorem Exclusion.ofString_eq_ok_iff {s : String} {e : Exclusion} :
    ofString s = .ok e ↔ e.Proper ∧ e.text = s := by
  constructor
  · intro h
    unfold ofString at h
    split at h
    · cases h
    · next hne =>
      split at h
      · next id hid =>
        cases h
        exact ModuleId.ofString?_eq_some_iff.1 hid
      · split at h
        · cases h
        · next hcolon =>
          cases h
          exact ⟨⟨hne, fun hmem => hcolon (List.contains_iff_mem.2 hmem)⟩, rfl⟩
  · rintro ⟨hproper, rfl⟩
    obtain ⟨group, name | name⟩ := e
    · obtain ⟨hne, hcolon⟩ := hproper
      have hnone : ModuleId.ofString? group = none := by
        unfold ModuleId.ofString?
        rw [Text.cut_eq_none_iff.2 hcolon]
      show ofString group = _
      unfold ofString
      rw [if_neg hne, hnone]
      simp [hcolon, ofGroup]
    · have hid : ModuleId.ofString? (group ++ ":" ++ name) = some ⟨group, name⟩ :=
        ModuleId.ofString?_eq_some_iff.2 ⟨hproper, rfl⟩
      show ofString (group ++ ":" ++ name) = _
      unfold ofString
      rw [if_neg (by simp), hid]
      rfl

/-- A requirement is read off a text if and only if something is left of it without the blanks
around it, and this, if it starts with a bracket, ends with one as well and has one comma in
between, or has none, is not blank there and has square brackets. What is read is read again off the
text it writes. The text of the identity, the coordinates or the exclusion that is read off a text
is this text itself. -/
theorem texts_read_back :
    (∀ s, (∃ r, Requirement.ofString s = .ok r) ↔ ∃ t, Trimmed s.toList t ∧ t ≠ [] ∧
      ((∃ c ∈ t.head?, c = '[' ∨ c = '(') → ∃ first inner last, t = first :: (inner ++ [last]) ∧
        (first = '[' ∨ first = '(') ∧ (last = ']' ∨ last = ')') ∧
        (inner.count ',' = 1 ∨ inner.count ',' = 0 ∧ (∃ c ∈ inner, Text.isBlank c = false) ∧
          first = '[' ∧ last = ']'))) ∧
    (∀ s r, Requirement.ofString s = .ok r → Requirement.ofString r.text = .ok r) ∧
    (∀ s id, ModuleId.ofString? s = some id → id.text = s) ∧
    (∀ s c, Coordinates.ofString? s = some c → c.text = s) ∧
    ∀ s e, Exclusion.ofString s = .ok e → e.text = s := by
  refine ⟨fun s => ?_, fun s r h => ?_, fun s id h => ?_, fun s c h => ?_, fun s e h => ?_⟩
  · simp only [← VersionRange.exists_spelled_iff]
    exact Requirement.exists_ofString_eq_ok_iff
  · exact Requirement.ofString_text_iff.2 (Requirement.legible_of_ofString h)
  · exact (ModuleId.ofString?_eq_some_iff.1 h).2
  · exact (Coordinates.ofString?_eq_some_iff.1 h).2
  · exact (Exclusion.ofString_eq_ok_iff.1 h).2

/-- A range between blanks is read, and read again off the text it writes. One version in round
brackets is not read. A name without a colon excludes a group. -/
theorem texts_read_back_over_spellings :
    ((∃ r, Requirement.ofString " [ 1.0 ,) " = .ok r) ∧
      ¬∃ r, Requirement.ofString "(1.0)" = .ok r) ∧
    (∃ r, Requirement.ofString " [ 1.0 ,) " = .ok r ∧ r.text = "[1.0,)" ∧
      Requirement.ofString "[1.0,)" = .ok r) ∧
    (∃ id, ModuleId.ofString? "org:core" = some id ∧ id.text = "org:core") ∧
    (∃ c, Coordinates.ofString? "org:core:1" = some c ∧ c.text = "org:core:1") ∧
    ∃ e, Exclusion.ofString "org" = .ok e ∧ e.name = none ∧ e.text = "org" := by
  obtain ⟨hreads, hagain, hid, hcoordinates, hexclusion⟩ := texts_read_back
  have hrange : ∃ r, Requirement.ofString " [ 1.0 ,) " = .ok r := by
    refine (hreads _).2 ⟨"[ 1.0 ,)".toList, Text.trimmed_iff.2 (by decide), by decide, fun _ => ?_⟩
    exact ⟨'[', " 1.0 ,".toList, ')', by decide, .inl rfl, .inr rfl, .inl (by decide)⟩
  have hround : ¬∃ r, Requirement.ofString "(1.0)" = .ok r := by
    intro h
    obtain ⟨t, ht, -, hbrackets⟩ := (hreads _).1 h
    obtain rfl : t = ['(', '1', '.', '0', ')'] := (Text.trimmed_iff.1 ht).trans (by decide)
    obtain ⟨first, inner, last, heq, -, -, hcommas⟩ := hbrackets ⟨'(', by decide, .inr rfl⟩
    obtain ⟨rfl, hrest⟩ := List.cons.inj heq
    obtain rfl : ['1', '.', '0'] = inner := by simpa using congrArg List.dropLast hrest
    simp at hcommas
  have hread : Requirement.ofString " [ 1.0 ,) " = .ok (.range ⟨some ⟨"1.0", true⟩, none⟩) := by
    decide
  exact ⟨⟨hrange, hround⟩, ⟨_, hread, by decide, hagain _ _ hread⟩,
    ⟨⟨"org", "core"⟩, by decide, hid _ _ (by decide)⟩,
    ⟨⟨⟨"org", "core"⟩, "1"⟩, by decide, hcoordinates _ _ (by decide)⟩,
    ⟨⟨"org", none⟩, by decide, rfl, hexclusion _ _ (by decide)⟩⟩

/-- The bracket of a missing end is not kept, nor are two ends at one version. -/
example : (Requirement.ofString "[1.0,1.0]").map Requirement.text = .ok "[1.0]" ∧
    (Requirement.ofString "[,2.0[]").map Requirement.text = .ok "(,2.0[]" := by
  decide

end Lockstep
