import Lockstep.Data.Decoder
import Lockstep.Request

/-!
# The shape of requests, catalogs and settings

Which keys the tables have, which of them may be left out, and what is read
from each.
-/

namespace Lockstep

namespace Schema

/-! ## Names -/

def moduleId : Decoder ModuleId :=
  .ofText ModuleId.ofString

def coordinates : Decoder Coordinates :=
  .ofText Coordinates.ofString

def exclusion : Decoder Exclusion :=
  .ofText Exclusion.ofString

def category : Decoder Category :=
  .choice Category.ofName?

def scheme : Decoder Scheme :=
  .choice Scheme.ofName?

/-- A faulty meaning of well-shaped data. -/
def meaning {α : Type} : Except Fault α → Except DataError α
  | .ok a => .ok a
  | .error fault => .error (.refused fault)

/-! ## Dependencies, constraints, rules -/

def dependency : Decoder Dependency := fun d v => do
  let f ← Fields.ofValue ["module", "version", "prefer", "force", "category", "exclude"] true d v
  let target ← f.required "module" moduleId
  let version ← f.optional "version" .string
  let prefer ← f.optional "prefer" .string
  let force ← f.default "force" false .bool
  let category ← f.optional "category" category
  let exclude ← f.default "exclude" [] (.list exclusion)
  meaning (Dependency.ofFields target version prefer force category (.ofList exclude))

def constraint : Decoder DeclaredConstraint := fun d v => do
  let f ← Fields.ofValue ["module", "version"] true d v
  let target ← f.required "module" moduleId
  let version ← f.required "version" .string
  return ⟨target, ← meaning (Requirement.ofString version)⟩

def rule : Decoder PlatformRule := fun d v => do
  let f ← Fields.ofValue ["module", "group", "platform", "kind"] true d v
  let one ← f.optional "module" moduleId
  let group ← f.optional "group" .string
  let platform ← f.required "platform" moduleId
  let kind ← f.default "kind" .virtual (.choice RuleKind.ofName?)
  meaning (PlatformRule.ofFields one group platform kind)

def membership : Decoder Membership := fun d v => do
  let f ← Fields.ofValue ["platform", "virtual"] true d v
  return ⟨← f.required "platform" moduleId, ← f.default "virtual" true .bool⟩

/-! ## Catalogs -/

def descriptor : Decoder Descriptor := fun d v => do
  let f ← Fields.ofValue ["id", "category", "dependencies", "constraints", "belongs-to"] true d v
  let coordinates ← f.required "id" coordinates
  let category ← f.default "category" .library category
  let dependencies ← f.default "dependencies" [] (.list dependency)
  let constraints ← f.default "constraints" [] (.list constraint)
  let belongsTo ← f.default "belongs-to" [] (.list membership)
  return { coordinates, category, dependencies, constraints, belongsTo }

def modules : Decoder (List Descriptor) :=
  .list descriptor

def catalog : Decoder Catalog := fun d v => do
  let f ← Fields.ofValue ["module"] true d v
  return ⟨← f.default "module" [] modules⟩

/-! ## Settings and requests -/

def settings : Decoder Settings := fun d v => do
  let f ← Fields.ofValue ["max-iterations", "max-concurrent-lookups", "version-scheme"] false d v
  let plain : Settings := {}
  return {
    maxIterations := ← f.default "max-iterations" plain.maxIterations .natural
    maxConcurrentLookups :=
      ← f.default "max-concurrent-lookups" plain.maxConcurrentLookups .natural
    scheme := ← f.default "version-scheme" plain.scheme scheme }

/-- The file of the user's settings, in which other tables are ignored. -/
def settingsFile : Decoder Settings := fun d v => do
  let f ← Fields.ofValue ["resolution"] false d v
  f.default "resolution" {} settings

def overrides : Decoder Overrides := fun d v => do
  let f ← Fields.ofValue ["max-iterations", "max-concurrent-lookups", "version-scheme"] true d v
  return {
    maxIterations := ← f.optional "max-iterations" .natural
    maxConcurrentLookups := ← f.optional "max-concurrent-lookups" .natural
    scheme := ← f.optional "version-scheme" scheme }

def root : Decoder Coordinates := fun d v => do
  let f ← Fields.ofValue ["id"] true d v
  f.required "id" coordinates

def request : Decoder Request := fun d v => do
  let f ← Fields.ofValue ["root", "dependency", "constraint", "platform-rule", "resolution"] true
    d v
  let root ← f.required "root" root
  let dependencies ← f.default "dependency" [] (.list dependency)
  let constraints ← f.default "constraint" [] (.list constraint)
  let rules ← f.default "platform-rule" [] (.list rule)
  let overrides ← f.default "resolution" {} overrides
  return { root, dependencies, constraints, rules, overrides }

end Schema

end Lockstep
