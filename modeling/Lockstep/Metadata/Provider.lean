import Lockstep.Catalog
import Lockstep.Sorted.Map

/-!
# Metadata providers

The resolver asks for metadata by query: a module and what is required of its
version. A provider answers every query, with a descriptor, with nothing, or
with a failure; the last two are data, not errors. A catalog answers with the
first published version that is the one asked for, or with the highest one
inside a range.
-/

namespace Lockstep

/-- A question for metadata. -/
structure Query where
  target : ModuleId
  requirement : Requirement
deriving DecidableEq, Repr

instance : Ord Query :=
  ⟨compareLex (compareOn Query.target) (compareOn Query.requirement)⟩

instance : Std.TransOrd Query :=
  inferInstanceAs (Std.TransCmp (compareLex (compareOn Query.target) (compareOn Query.requirement)))

instance : Std.LawfulEqOrd Query where
  eq_of_compare {a b} h := by
    have h := (compareLex_eq_eq.1 h).imp compareOn_eq_iff.1 compareOn_eq_iff.1
    cases a
    cases b
    simpa only [Query.mk.injEq] using h

/-- A failure of the provider. -/
structure Outage where
  target : ModuleId
  message : String
deriving DecidableEq, Repr

def Outage.text (o : Outage) : String :=
  "metadata for " ++ o.target.text ++ " is unavailable: " ++ o.message

/-- What a provider says: a failure, nothing, or a descriptor. -/
abbrev Answer := Except Outage (Option Descriptor)

/-- A provider answers every query. -/
abbrev Provider := Query → Answer

/-- The modules of a provider that fail, with the message of the failure. -/
def Provider.withOutages (outages : SortedMap ModuleId String) (p : Provider) : Provider :=
  fun q => match outages.get? q.target with
    | some message => .error ⟨q.target, message⟩
    | none => p q

namespace Catalog

/-- The descriptors of a module, in the order of the catalog. -/
def published (c : Catalog) (id : ModuleId) : List Descriptor :=
  c.modules.filter (·.id == id)

/-- The published versions of a module, in the order of the catalog. -/
def versions (c : Catalog) (id : ModuleId) : List String :=
  (c.published id).map Descriptor.version

/-- The descriptor that answers a query. -/
def find? (c : Catalog) (order : VersionOrder) (q : Query) : Option Descriptor :=
  match q.requirement with
  | .exact v => (c.published q.target).find? fun d => order.same d.version v
  | .prefer v => (c.published q.target).find? fun d => order.same d.version v
  | .range r => do
    let best ← order.maxOf ((c.versions q.target).filter (r.contains order))
    (c.published q.target).find? (·.version == best)

/-- The catalog as a provider that never fails. -/
def provider (c : Catalog) (order : VersionOrder) : Provider :=
  fun q => .ok (c.find? order q)

end Catalog

end Lockstep
