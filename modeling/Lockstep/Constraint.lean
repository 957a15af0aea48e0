import Lockstep.Requirement

/-!
# Constraints

A constraint restricts the version of a module that is in the graph anyway; it
never brings a module in. Constraints are declared in the request, published by
selected modules, or computed for the members of a platform.
-/

namespace Lockstep

/-- Where a constraint comes from. -/
inductive Source where
  /-- The request. -/
  | declared
  /-- The metadata of a module version. -/
  | published (publisher : Coordinates)
  /-- The alignment of a virtual platform. -/
  | alignment (platform : ModuleId)
deriving DecidableEq, Repr

/-- A restriction on the version of a module. -/
structure Constraint where
  target : ModuleId
  requirement : Requirement
  source : Source
  /-- Set by enforced platforms; overrides the rule that the highest version wins. -/
  forced : Bool := false
deriving DecidableEq, Repr

/-- A constraint as a request or a catalog writes it. -/
structure DeclaredConstraint where
  target : ModuleId
  requirement : Requirement
deriving DecidableEq, Repr

def DeclaredConstraint.asConstraint (d : DeclaredConstraint) (source : Source) : Constraint :=
  { target := d.target, requirement := d.requirement, source }

def Source.text : Source → String
  | declared => "declared constraint"
  | published c => "constraint from " ++ c.text
  | alignment platform => "alignment with platform " ++ platform.text

namespace Constraint

def force (c : Constraint) : Constraint :=
  { c with forced := true }

def text (c : Constraint) : String :=
  c.target.text ++ ":" ++ c.requirement.text ++ " (" ++ c.source.text ++ ")" ++
    if c.forced then " [forced]" else ""

end Constraint

/-! ## Order

By target, then requirement, then source, then force. -/

namespace Source

def rank : Source → Nat
  | declared => 0
  | published _ => 1
  | alignment _ => 2

def publisher? : Source → Option Coordinates
  | published c => some c
  | _ => none

def platform? : Source → Option ModuleId
  | alignment p => some p
  | _ => none

instance : Ord Source :=
  ⟨compareLex (compareOn rank) (compareLex (compareOn publisher?) (compareOn platform?))⟩

instance : Std.TransOrd Source :=
  inferInstanceAs (Std.TransCmp
    (compareLex (compareOn rank) (compareLex (compareOn publisher?) (compareOn platform?))))

instance : Std.LawfulEqOrd Source where
  eq_of_compare {a b} h := by
    have h := (compareLex_eq_eq.1 h).imp compareOn_eq_iff.1 compareLex_eq_eq.1
    have hp := compareOn_eq_iff.1 h.2.1
    have ha := compareOn_eq_iff.1 h.2.2
    cases a <;> cases b <;> simp_all [rank, publisher?, platform?]

end Source

namespace Constraint

instance : Ord Constraint :=
  ⟨compareLex (compareOn target) (compareLex (compareOn requirement)
    (compareLex (compareOn source) (compareOn forced)))⟩

instance : Std.TransOrd Constraint :=
  inferInstanceAs (Std.TransCmp (compareLex (compareOn target) (compareLex (compareOn requirement)
    (compareLex (compareOn source) (compareOn forced)))))

instance : Std.LawfulEqOrd Constraint where
  eq_of_compare {a b} h := by
    have h := (compareLex_eq_eq.1 h).imp compareOn_eq_iff.1 fun h =>
      (compareLex_eq_eq.1 h).imp compareOn_eq_iff.1 fun h =>
        (compareLex_eq_eq.1 h).imp compareOn_eq_iff.1 compareOn_eq_iff.1
    cases a
    cases b
    simpa only [mk.injEq] using h

end Constraint

end Lockstep
