import Lockstep.Selection.Resolution

/-!
# Alignment of virtual platforms

The selected members of a virtual platform are brought to one version: the one
that forced demands fixed for some of them, else the one that enforced
constraints fixed, else the highest that any of them is at. The result is a
constraint on each member for the next pass; it is forced where the platform is
enforced or a member was fixed.

Published platforms are not aligned. Their constraints take part in the
selection like any others.
-/

namespace Lockstep

/-- A virtual platform and the version of its members. -/
structure AlignedPlatform where
  platform : ModuleId
  version : String
  /-- A rule enforces the platform. -/
  enforced : Bool := false
  /-- A member's version was fixed, and the platform follows it. -/
  forcedByMember : Bool := false
  members : List ModuleId
deriving DecidableEq, Repr

namespace AlignedPlatform

/-- Members are held to the version by force. -/
def strict (p : AlignedPlatform) : Bool :=
  p.enforced || p.forcedByMember

/-- The constraint that alignment puts on a member. -/
def constraint (p : AlignedPlatform) (member : ModuleId) : Constraint where
  target := member
  requirement := .exact p.version
  source := .alignment p.platform
  forced := p.strict

end AlignedPlatform

/-- The platforms of a resolution and the constraints on their members. -/
structure Alignment where
  constraints : SortedSet Constraint := ∅
  platforms : List AlignedPlatform := []
  errors : List ResolveError := []
deriving DecidableEq

/-! ## Members -/

/-- The selected members of a platform. -/
structure PlatformMembers where
  enforced : Bool := false
  selections : SortedMap ModuleId Selection := ∅

namespace Alignment

/-- The virtual platforms that a selected module belongs to, and whether each is enforced. A
module that is a platform itself belongs to none, and none belongs to itself. -/
def platformsOf (g : CandidateGraph) (rules : PlatformRules) (id : ModuleId) (s : Selection) :
    List (ModuleId × Bool) :=
  let descriptor := g.descriptor? (id.atVersion s.version)
  if descriptor.any (·.category.isPlatform) then []
  else
    let byRules := (rules.memberships id).filterMap fun r =>
      if r.kind.isVirtual then some (r.platform, r.kind == .virtualEnforced) else none
    let byMetadata := ((descriptor.map Descriptor.belongsTo).getD []).filterMap fun m =>
      if m.kind.isVirtual then some (m.platform, false) else none
    (byRules ++ byMetadata).filter (·.1 != id)

/-- Adds a member to a platform. -/
def addMember (id : ModuleId) (s : Selection) (m : SortedMap ModuleId PlatformMembers)
    (platform : ModuleId × Bool) : SortedMap ModuleId PlatformMembers :=
  m.alter platform.1 fun old =>
    let old := old.getD {}
    { enforced := old.enforced || platform.2, selections := old.selections.insert id s }

/-- The virtual platforms with a selected member. -/
def membersOf (g : CandidateGraph) (rules : PlatformRules) (r : Resolution) :
    SortedMap ModuleId PlatformMembers :=
  r.selections.entries.foldl (fun m (id, s) =>
    (platformsOf g rules id s).foldl (addMember id s) m) ∅

/-! ## Versions -/

/-- A member whose version is fixed, and the demands that fix it. -/
structure Pin where
  member : ModuleId
  version : String
  demands : List Demand

/-- The members whose versions are fixed in the given way. -/
def pins (m : PlatformMembers) (pinnedBy : Selection → Option (List Demand)) : List Pin :=
  m.selections.entries.filterMap fun (member, s) =>
    (pinnedBy s).map fun demands => { member, version := s.version, demands }

/-- Forced edges fix a version that was selected for them. -/
def forcedBy (s : Selection) : Option (List Demand) :=
  if s.reason = .forced then some (s.demands.filter (·.kind = .forcedEdge)) else none

/-- Enforced constraints fix a version that they accept and that a constraint selected. The
platform's own alignment does not count. -/
def enforcedBy (order : VersionOrder) (platform : ModuleId) (s : Selection) :
    Option (List Demand) :=
  let own := (Source.alignment platform).text
  let demands := s.demands.filter fun d =>
    d.kind == .forcedConstraint && d.requester != own && d.requirement.accepts order s.version
  if s.reason = .byConstraint ∧ demands ≠ [] then some demands else none

/-- The version that all pins are at, or every pin with what fixes it. -/
def agreed (order : VersionOrder) (pins : List Pin) : Except (List Party) String :=
  match order.distinct (pins.map Pin.version) with
  | [one] => .ok one
  | _ => .error (pins.flatMap fun p => p.demands.map (.pin p.member))

/-- The version of a platform, and whether some member fixes it. -/
def versionOf (order : VersionOrder) (platform : ModuleId) (m : PlatformMembers) :
    Except ResolveError (Option (String × Bool)) :=
  match pins m forcedBy with
  | f :: fs => match agreed order (f :: fs) with
    | .ok v => .ok (some (v, true))
    | .error parties => .error (.versionConflict platform parties)
  | [] =>
    match pins m (enforcedBy order platform) with
    | e :: es => match agreed order (e :: es) with
      | .ok v => .ok (some (v, true))
      | .error parties => .error (.constraintConflict platform parties)
    | [] => .ok ((order.maxOf (m.selections.values.map Selection.version)).map (·, false))

/-- Adds a platform to an alignment. -/
def add (order : VersionOrder) (a : Alignment) (platform : ModuleId) (m : PlatformMembers) :
    Alignment :=
  match versionOf order platform m with
  | .error e => { a with errors := a.errors ++ [e] }
  | .ok none => a
  | .ok (some (version, forcedByMember)) =>
    let p : AlignedPlatform :=
      { platform, version, enforced := m.enforced, forcedByMember, members := m.selections.keys }
    { a with
      constraints := a.constraints.insertAll (p.members.map p.constraint)
      platforms := a.platforms ++ [p] }

end Alignment

/-- The alignment of every virtual platform with a selected member. -/
def align (order : VersionOrder) (g : CandidateGraph) (rules : PlatformRules) (r : Resolution) :
    Alignment :=
  (Alignment.membersOf g rules r).entries.foldl (fun a (platform, m) => a.add order platform m) {}

/-! ## The check -/

namespace AlignedPlatform

/-- A member is at another version than its platform, and not because it does not publish that
version and is not held to it. -/
def isAstray (order : VersionOrder) (g : CandidateGraph) (p : AlignedPlatform) (member : ModuleId)
    (version : String) : Bool :=
  !order.same version p.version &&
    (p.strict || (g.descriptor? (member.atVersion p.version)).isSome)

/-- The members that are astray, with their versions. -/
def astray (order : VersionOrder) (g : CandidateGraph) (r : Resolution) (p : AlignedPlatform) :
    List Party :=
  p.members.filterMap fun member => do
    let version ← r.versionOf? member
    if p.isAstray order g member version then some (.astray member version) else none

end AlignedPlatform

/-- An error for each platform with members astray. -/
def misaligned (order : VersionOrder) (g : CandidateGraph) (r : Resolution)
    (platforms : List AlignedPlatform) : List ResolveError :=
  platforms.filterMap fun p =>
    match p.astray order g r with
    | [] => none
    | party :: parties => some (.versionConflict p.platform (party :: parties))

end Lockstep
