import Lockstep.Constraint
import Lockstep.Dependency
import Lockstep.Platform

/-!
# Descriptors and catalogs

A descriptor is what is known of one published module version. A catalog is a
list of descriptors without two for the same version; `Catalog.extend` keeps it
so or names the version that is there twice.
-/

namespace Lockstep

/-- The metadata of a module version. -/
structure Descriptor where
  coordinates : Coordinates
  category : Category := .library
  dependencies : List Dependency := []
  constraints : List DeclaredConstraint := []
  belongsTo : List Membership := []
deriving DecidableEq

namespace Descriptor

def id (d : Descriptor) : ModuleId :=
  d.coordinates.id

def version (d : Descriptor) : String :=
  d.coordinates.version

/-- The constraints of this module are forced on whoever it applies to. -/
def forcesConstraints (d : Descriptor) : Bool :=
  d.category == .enforcedPlatform

end Descriptor

/-- Descriptors in the order of publication. -/
structure Catalog where
  modules : List Descriptor := []
deriving DecidableEq, Inhabited

namespace Catalog

/-- The first coordinates that some earlier descriptor has too. -/
def firstDuplicate? (seen : List Coordinates) : List Descriptor → Option Coordinates
  | [] => none
  | d :: rest =>
    if d.coordinates ∈ seen then some d.coordinates
    else firstDuplicate? (d.coordinates :: seen) rest

/-- No version is described twice. -/
def check (c : Catalog) : Except Fault Unit :=
  match firstDuplicate? [] c.modules with
  | some coordinates => .error (.duplicateModule coordinates)
  | none => .ok ()

def append (c d : Catalog) : Catalog :=
  ⟨c.modules ++ d.modules⟩

/-- Both catalogs together, if no version is described twice. -/
def extend (c d : Catalog) : Except Fault Catalog := do
  let both := c.append d
  both.check
  return both

theorem firstDuplicate?_eq_none_iff {seen : List Coordinates} {l : List Descriptor} :
    firstDuplicate? seen l = none ↔
      (l.map Descriptor.coordinates).Nodup ∧ ∀ d ∈ l, d.coordinates ∉ seen := by
  induction l generalizing seen with
  | nil => simp [firstDuplicate?]
  | cons d rest ih =>
    by_cases h : d.coordinates ∈ seen
    · simp [firstDuplicate?, h]
    · simp only [firstDuplicate?, if_neg h, ih, List.map_cons, List.nodup_cons, List.mem_cons,
        forall_eq_or_imp, not_or, List.mem_map]
      constructor
      · rintro ⟨nodup, fresh⟩
        exact ⟨⟨fun ⟨e, he, heq⟩ => (fresh e he).1 heq, nodup⟩, h, fun e he => (fresh e he).2⟩
      · rintro ⟨⟨new, nodup⟩, -, fresh⟩
        exact ⟨nodup, fun e he => ⟨fun heq => new ⟨e, he, heq⟩, fresh e he⟩⟩

/-- The check passes exactly on catalogs that describe each version once. -/
theorem check_eq_ok_iff {c : Catalog} :
    c.check = .ok () ↔ (c.modules.map Descriptor.coordinates).Nodup := by
  rw [check]
  split
  · next h =>
    simp only [reduceCtorEq, false_iff]
    intro nodup
    rw [firstDuplicate?_eq_none_iff.2 ⟨nodup, by simp⟩] at h
    cases h
  · next h => simp [(firstDuplicate?_eq_none_iff.1 h).1]

end Catalog

end Lockstep
