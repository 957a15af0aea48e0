import Lockstep.Fault
import Lockstep.Text.Split
import Lockstep.Version.Order

/-!
# Version requirements

What an edge or a constraint asks for: one version, a range, or a preference
that counts only when nothing else asks. A requirement is read from text
(`ofString`), written back (`text`), and decides which versions it accepts.
-/

namespace Lockstep

/-- One end of a range. -/
structure Bound where
  version : String
  inclusive : Bool
deriving DecidableEq, Repr

/-- The versions between two ends, either of which may be missing. -/
structure VersionRange where
  lower : Option Bound
  upper : Option Bound
deriving DecidableEq, Repr

/-- What is asked of a module's version. -/
inductive Requirement where
  /-- One version, subject to the highest one winning. -/
  | exact (version : String)
  /-- The highest published version inside a range. -/
  | range (range : VersionRange)
  /-- One version, used only when nothing else asks for the module. -/
  | prefer (version : String)
deriving DecidableEq, Repr

/-! ## Reading -/

namespace VersionRange

/-- An opening bracket, and whether it includes the lower end. -/
def opening? : Char → Option Bool
  | '[' => some true
  | '(' => some false
  | _ => none

/-- A closing bracket, and whether it includes the upper end. -/
def closing? : Char → Option Bool
  | ']' => some true
  | ')' => some false
  | _ => none

/-- The bound that a text between brackets writes; a blank one is no bound. -/
def bound? (text : List Char) (inclusive : Bool) : Option Bound :=
  let version := Text.trim text
  if version.isEmpty then none else some ⟨String.ofList version, inclusive⟩

/-- The range between brackets that include their ends or not. A single version stands for
itself, in square brackets only. -/
def ofInner? (low high : Bool) (inner : List Char) : Option VersionRange :=
  match Text.cut ',' inner with
  | some (lower, upper) =>
    if upper.contains ',' then none else some ⟨bound? lower low, bound? upper high⟩
  | none =>
    if low && high && !(Text.trim inner).isEmpty then some ⟨bound? inner true, bound? inner true⟩
    else none

/-- Reads a bracketed range without blanks around it. -/
def ofChars? : List Char → Option VersionRange
  | [] => none
  | first :: rest =>
    match opening? first, rest.getLast?.bind closing? with
    | some low, some high => ofInner? low high rest.dropLast
    | _, _ => none

/-- Reads a bracketed range. -/
def ofString (spec : String) : Except Fault VersionRange :=
  match ofChars? (Text.trim spec.toList) with
  | some range => .ok range
  | none => .error (.malformedRange spec)

end VersionRange

namespace Requirement

/-- A text that starts with a bracket is a range, any other is one version. -/
def ofString (spec : String) : Except Fault Requirement :=
  match Text.trim spec.toList with
  | [] => .error .emptyRequirement
  | first :: rest =>
    let trimmed := String.ofList (first :: rest)
    if first = '[' ∨ first = '(' then (VersionRange.ofString trimmed).map .range
    else .ok (.exact trimmed)

/-- The version that a requirement names, if it names one. -/
def version? : Requirement → Option String
  | exact v => some v
  | prefer v => some v
  | range _ => none

def range? : Requirement → Option VersionRange
  | range r => some r
  | _ => none

def isPrefer : Requirement → Bool
  | prefer _ => true
  | _ => false

def isRange (r : Requirement) : Bool :=
  r.range?.isSome

end Requirement

/-! ## Writing -/

/-- A single version in brackets if both ends are that version, else both ends. -/
def VersionRange.text (r : VersionRange) : String :=
  let ends :=
    let version (b : Option Bound) := (b.map Bound.version).getD ""
    let inclusive (b : Option Bound) := (b.map Bound.inclusive).getD false
    (if inclusive r.lower then "[" else "(") ++ version r.lower ++ "," ++ version r.upper ++
      (if inclusive r.upper then "]" else ")")
  match r.lower, r.upper with
  | some l, some u => if l = u ∧ l.inclusive then "[" ++ l.version ++ "]" else ends
  | _, _ => ends

def Requirement.text : Requirement → String
  | exact v => v
  | range r => r.text
  | prefer v => "prefer " ++ v

/-! ## Acceptance -/

/-- A version inside both ends. -/
def VersionRange.contains (order : VersionOrder) (r : VersionRange) (version : String) : Bool :=
  let above (b : Bound) := match order.compare version b.version with
    | .lt => false
    | .eq => b.inclusive
    | .gt => true
  let below (b : Bound) := match order.compare version b.version with
    | .lt => true
    | .eq => b.inclusive
    | .gt => false
  r.lower.all above && r.upper.all below

/-- Whether a version is one that the requirement asks for. -/
def Requirement.accepts (order : VersionOrder) : Requirement → String → Bool
  | exact v, version => order.same v version
  | prefer v, version => order.same v version
  | range r, version => r.contains order version

/-! ## Order

Exact requirements come before ranges and ranges before preferences. -/

instance : Ord Bound :=
  ⟨compareLex (compareOn Bound.version) (compareOn Bound.inclusive)⟩

instance : Std.TransOrd Bound :=
  inferInstanceAs (Std.TransCmp (compareLex (compareOn Bound.version) (compareOn Bound.inclusive)))

instance : Std.LawfulEqOrd Bound where
  eq_of_compare {a b} h := by
    have h := (compareLex_eq_eq.1 h).imp compareOn_eq_iff.1 compareOn_eq_iff.1
    cases a
    cases b
    simpa only [Bound.mk.injEq] using h

instance : Ord VersionRange :=
  ⟨compareLex (compareOn VersionRange.lower) (compareOn VersionRange.upper)⟩

instance : Std.TransOrd VersionRange :=
  inferInstanceAs
    (Std.TransCmp (compareLex (compareOn VersionRange.lower) (compareOn VersionRange.upper)))

instance : Std.LawfulEqOrd VersionRange where
  eq_of_compare {a b} h := by
    have h := (compareLex_eq_eq.1 h).imp compareOn_eq_iff.1 compareOn_eq_iff.1
    cases a
    cases b
    simpa only [VersionRange.mk.injEq] using h

namespace Requirement

/-- Place of the kind of requirement in the order. -/
def rank : Requirement → Nat
  | exact _ => 0
  | range _ => 1
  | prefer _ => 2

instance : Ord Requirement :=
  ⟨compareLex (compareOn rank) (compareLex (compareOn version?) (compareOn range?))⟩

instance : Std.TransOrd Requirement :=
  inferInstanceAs
    (Std.TransCmp
      (compareLex (compareOn rank) (compareLex (compareOn version?) (compareOn range?))))

instance : Std.LawfulEqOrd Requirement where
  eq_of_compare {a b} h := by
    have h := (compareLex_eq_eq.1 h).imp compareOn_eq_iff.1 compareLex_eq_eq.1
    have hv := compareOn_eq_iff.1 h.2.1
    have hr := compareOn_eq_iff.1 h.2.2
    cases a <;> cases b <;> simp_all [rank, version?, range?]

end Requirement

end Lockstep
