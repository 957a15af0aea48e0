import Lockstep.Candidate.Graph

/-!
# Demands on a module's version

A demand is one request for a module: an edge of the live graph or a constraint
on it. A candidate is a demand together with the version that it came to, or
with the reason that it came to none.

Candidates are kept in sets, ordered by requester, then requirement, then kind.
-/

namespace Lockstep

/-- What a demand is, and how strong. -/
inductive DemandKind where
  | edge
  | forcedEdge
  /-- An edge that only states a preference. -/
  | preference
  | constraint
  | forcedConstraint
deriving DecidableEq, Repr

namespace DemandKind

def rank : DemandKind → Nat
  | edge => 0
  | forcedEdge => 1
  | preference => 2
  | constraint => 3
  | forcedConstraint => 4

def verb : DemandKind → String
  | edge => "requested"
  | forcedEdge => "forced"
  | preference => "preferred"
  | constraint => "constrained"
  | forcedConstraint => "enforced"

theorem rank_injective {a b : DemandKind} (h : a.rank = b.rank) : a = b := by
  cases a <;> cases b <;> simp_all [rank]

end DemandKind

/-- One request for a module. -/
structure Demand where
  requester : String
  requirement : Requirement
  kind : DemandKind
deriving DecidableEq, Repr

def Demand.text (d : Demand) : String :=
  d.requester ++ " " ++ d.kind.verb ++ " " ++ d.requirement.text

/-- Why a demand comes to no version. -/
inductive Shortfall where
  /-- The query was made, and no version answers it. -/
  | unmatched (u : Unmatched)
  /-- The edge was never followed. -/
  | unfollowed (q : Query)
  /-- The query of a constraint was never made. -/
  | unasked (c : Constraint)
deriving DecidableEq, Repr

def Shortfall.text : Shortfall → String
  | unmatched u => u.text
  | unfollowed q => "no version of " ++ q.target.text ++ " matches " ++ q.requirement.text
  | unasked c => c.text ++ " was never looked up"

/-- A demand and what it came to. -/
structure Candidate where
  demand : Demand
  outcome : Except Shortfall String

namespace Candidate

/-- The version that the demand came to. -/
def version? (c : Candidate) : Option String :=
  match c.outcome with
  | .ok v => some v
  | .error _ => none

def shortfall? (c : Candidate) : Option Shortfall :=
  match c.outcome with
  | .ok _ => none
  | .error s => some s

theorem eq_of_fields {a b : Candidate} (demand : a.demand = b.demand)
    (shortfall : a.shortfall? = b.shortfall?) (version : a.version? = b.version?) : a = b := by
  rcases a with ⟨_, _ | _⟩ <;> rcases b with ⟨_, _ | _⟩ <;> simp_all [shortfall?, version?]

instance : DecidableEq Candidate := fun a b =>
  decidable_of_iff (a.demand = b.demand ∧ a.shortfall? = b.shortfall? ∧ a.version? = b.version?)
    ⟨fun ⟨hd, hs, hv⟩ => eq_of_fields hd hs hv, fun h => h ▸ ⟨rfl, rfl, rfl⟩⟩

end Candidate

/-! ## Orders -/

instance : Ord Demand :=
  ⟨compareLex (compareOn Demand.requester) (compareLex (compareOn Demand.requirement)
    (compareOn (·.kind.rank)))⟩

instance : Std.TransOrd Demand :=
  inferInstanceAs (Std.TransCmp (compareLex (compareOn Demand.requester)
    (compareLex (compareOn Demand.requirement) (compareOn (·.kind.rank)))))

instance : Std.LawfulEqOrd Demand where
  eq_of_compare {a b} h := by
    have h := (compareLex_eq_eq.1 h).imp compareOn_eq_iff.1 fun h =>
      (compareLex_eq_eq.1 h).imp compareOn_eq_iff.1 compareOn_eq_iff.1
    cases a
    cases b
    simpa only [Demand.mk.injEq] using ⟨h.1, h.2.1, DemandKind.rank_injective h.2.2⟩

instance : Ord Outage :=
  ⟨compareLex (compareOn Outage.target) (compareOn Outage.message)⟩

instance : Std.TransOrd Outage :=
  inferInstanceAs (Std.TransCmp (compareLex (compareOn Outage.target) (compareOn Outage.message)))

instance : Std.LawfulEqOrd Outage where
  eq_of_compare {a b} h := by
    have h := (compareLex_eq_eq.1 h).imp compareOn_eq_iff.1 compareOn_eq_iff.1
    cases a
    cases b
    simpa only [Outage.mk.injEq] using h

namespace Shortfall

def rank : Shortfall → Nat
  | unmatched _ => 0
  | unfollowed _ => 1
  | unasked _ => 2

def query? : Shortfall → Option Query
  | unmatched u => some u.query
  | unfollowed q => some q
  | unasked _ => none

def outage? : Shortfall → Option Outage
  | unmatched ⟨_, .unavailable o⟩ => some o
  | _ => none

def constraint? : Shortfall → Option Constraint
  | unasked c => some c
  | _ => none

/-- By wording first; what tells two equally worded ones apart comes after it. -/
instance : Ord Shortfall :=
  ⟨compareLex (compareOn text) (compareLex (compareOn rank) (compareLex (compareOn query?)
    (compareLex (compareOn outage?) (compareOn constraint?))))⟩

instance : Std.TransOrd Shortfall :=
  inferInstanceAs (Std.TransCmp (compareLex (compareOn text) (compareLex (compareOn rank)
    (compareLex (compareOn query?) (compareLex (compareOn outage?) (compareOn constraint?))))))

instance : Std.LawfulEqOrd Shortfall where
  eq_of_compare {a b} h := by
    have h := (compareLex_eq_eq.1 (compareLex_eq_eq.1 h).2).imp compareOn_eq_iff.1 fun h =>
      (compareLex_eq_eq.1 h).imp compareOn_eq_iff.1 fun h =>
        (compareLex_eq_eq.1 h).imp compareOn_eq_iff.1 compareOn_eq_iff.1
    obtain ⟨hr, hq, ho, hc⟩ := h
    rcases a with ⟨_, _ | _⟩ | _ | _ <;> rcases b with ⟨_, _ | _⟩ | _ | _ <;>
      simp_all [rank, query?, outage?, constraint?]

end Shortfall

namespace Candidate

/-- By demand; of two with the same demand, versions come before shortfalls. -/
instance : Ord Candidate :=
  ⟨compareLex (compareOn demand) (compareLex (compareOn shortfall?) (compareOn version?))⟩

instance : Std.TransOrd Candidate :=
  inferInstanceAs (Std.TransCmp (compareLex (compareOn demand)
    (compareLex (compareOn shortfall?) (compareOn version?))))

instance : Std.LawfulEqOrd Candidate where
  eq_of_compare {a b} h := by
    have h := (compareLex_eq_eq.1 h).imp compareOn_eq_iff.1 fun h =>
      (compareLex_eq_eq.1 h).imp compareOn_eq_iff.1 compareOn_eq_iff.1
    exact eq_of_fields h.1 h.2.1 h.2.2

end Candidate

end Lockstep
