import Lockstep.Alignment
import Lockstep.Proofs.Forcing

/-!
# Members of platforms

Which platforms have which members depends on the selected versions and their
metadata alone (`Alignment.bareMembers_eq`). If all members are forced, so does
the version of a platform: they have to be at versions that count as one
(`Alignment.aligned?_of_forced`).
-/

namespace Lockstep

namespace Alignment

variable {order : VersionOrder}

/-! ## What an alignment consists of -/

/-- The platform of some members, if they come to a version. -/
def aligned? (order : VersionOrder) (x : ModuleId × PlatformMembers) : Option AlignedPlatform :=
  match versionOf order x.1 x.2 with
  | .ok (some (version, forcedByMember)) => some
    { platform := x.1
      version
      enforced := x.2.enforced
      forcedByMember
      members := x.2.selections.keys }
  | _ => none

/-- The conflict between some members, if there is one. -/
def conflict? (order : VersionOrder) (x : ModuleId × PlatformMembers) : Option ResolveError :=
  match versionOf order x.1 x.2 with
  | .error e => some e
  | .ok _ => none

/-- The constraints on the members of some platforms. -/
def constraintsOf (platforms : List AlignedPlatform) : List Constraint :=
  platforms.flatMap fun p => p.members.map p.constraint

theorem add_eq (order : VersionOrder) (a : Alignment) (x : ModuleId × PlatformMembers) :
    a.add order x.1 x.2 =
      { constraints := a.constraints.insertAll (constraintsOf (aligned? order x).toList)
        platforms := a.platforms ++ (aligned? order x).toList
        errors := a.errors ++ (conflict? order x).toList } := by
  unfold add aligned? conflict? constraintsOf
  cases hversion : versionOf order x.1 x.2 with
  | error e => simp [SortedSet.insertAll]
  | ok found =>
      cases found with
      | none => simp [SortedSet.insertAll]
      | some v => simp

theorem foldl_add_eq (order : VersionOrder) (entries : List (ModuleId × PlatformMembers))
    (a : Alignment) : entries.foldl (fun a x => a.add order x.1 x.2) a =
      { constraints := a.constraints.insertAll (constraintsOf (entries.filterMap (aligned? order)))
        platforms := a.platforms ++ entries.filterMap (aligned? order)
        errors := a.errors ++ entries.filterMap (conflict? order) } := by
  have hcons : ∀ {β : Type} (f : ModuleId × PlatformMembers → Option β) x rest,
      List.filterMap f (x :: rest) = (f x).toList ++ rest.filterMap f := by
    intro β f x rest
    rw [List.filterMap_cons]
    cases f x <;> rfl
  induction entries generalizing a with
  | nil => simp [constraintsOf, SortedSet.insertAll]
  | cons x rest ih =>
      rw [List.foldl_cons, ih, add_eq, hcons, hcons]
      unfold constraintsOf SortedSet.insertAll
      simp only [List.flatMap_append, List.foldl_append, List.append_assoc]

variable {g g' : CandidateGraph} {rules : PlatformRules} {res res' : Resolution}

theorem align_eq (order : VersionOrder) (g : CandidateGraph) (rules : PlatformRules)
    (res : Resolution) : align order g rules res =
      { constraints := .ofList (constraintsOf ((membersOf g rules res).entries.filterMap
          (aligned? order)))
        platforms := (membersOf g rules res).entries.filterMap (aligned? order)
        errors := (membersOf g rules res).entries.filterMap (conflict? order) } :=
  foldl_add_eq order _ {}

theorem mem_platforms_align {p : AlignedPlatform} : p ∈ (align order g rules res).platforms ↔
    ∃ platform m, (membersOf g rules res).get? platform = some m ∧
      aligned? order (platform, m) = some p := by
  rw [align_eq, List.mem_filterMap]
  constructor
  · rintro ⟨⟨platform, m⟩, hmem, hp⟩
    exact ⟨platform, m, SortedMap.mem_entries_iff.1 hmem, hp⟩
  · rintro ⟨platform, m, hm, hp⟩
    exact ⟨(platform, m), SortedMap.mem_entries_iff.2 hm, hp⟩

theorem mem_constraints_align {k : Constraint} : k ∈ (align order g rules res).constraints ↔
    ∃ p ∈ (align order g rules res).platforms, ∃ member ∈ p.members, p.constraint member = k := by
  rw [align_eq]
  unfold constraintsOf
  rw [SortedSet.mem_ofList, List.mem_flatMap]
  exact exists_congr fun p => and_congr_right fun _ => List.mem_map

theorem errors_align_eq_nil_iff : (align order g rules res).errors = [] ↔
    ∀ platform m, (membersOf g rules res).get? platform = some m →
      conflict? order (platform, m) = none := by
  rw [align_eq, List.filterMap_eq_nil_iff]
  exact ⟨fun h platform m hm => h (platform, m) (SortedMap.mem_entries_iff.2 hm),
    fun h x hx => h x.1 x.2 (SortedMap.mem_entries_iff.1 hx)⟩

end Alignment

/-! ## Selected members -/

namespace PlatformMembers

/-- The versions of the members, in the order of the members. -/
def versions (m : PlatformMembers) : List String :=
  m.selections.values.map Selection.version

/-- The members with their versions and nothing else. -/
def bare (m : PlatformMembers) : Bool × SortedMap ModuleId String :=
  (m.enforced, m.selections.mapValues fun _ s => s.version)

theorem values_bare (m : PlatformMembers) : m.bare.2.values = m.versions := by
  unfold bare versions SortedMap.values SortedMap.mapValues
  simp

theorem keys_bare (m : PlatformMembers) : m.bare.2.keys = m.selections.keys := by
  unfold bare SortedMap.keys SortedMap.mapValues
  simp

end PlatformMembers

namespace Alignment

variable {order : VersionOrder} {g g' : CandidateGraph} {rules : PlatformRules}
  {res res' : Resolution}

/-- Members are selections. -/
theorem selection_of_member {platform : ModuleId} {m : PlatformMembers}
    (hm : (membersOf g rules res).get? platform = some m) {id : ModuleId} {s : Selection}
    (hs : m.selections.get? id = some s) : res.selections.get? id = some s := by
  have hadd : ∀ (members : SortedMap ModuleId PlatformMembers) (x : ModuleId × Selection)
      (p : ModuleId × Bool), res.selections.get? x.1 = some x.2 →
      (∀ platform m, members.get? platform = some m → ∀ id s, m.selections.get? id = some s →
        res.selections.get? id = some s) →
      ∀ platform m, (addMember x.1 x.2 members p).get? platform = some m →
        ∀ id s, m.selections.get? id = some s → res.selections.get? id = some s := by
    intro members x p hx hmembers platform m hm id s hs
    unfold addMember at hm
    rw [SortedMap.get?_alter] at hm
    split at hm
    · rw [← Option.some.inj hm] at hs
      dsimp only at hs
      rw [SortedMap.get?_insert] at hs
      split at hs
      · next heq =>
        rw [heq, hx]
        exact hs
      · cases hold : members.get? p.1 with
        | none =>
            rw [hold] at hs
            cases hs
        | some old =>
            rw [hold] at hs
            exact hmembers p.1 old hold id s hs
    · exact hmembers platform m hm id s hs
  have hall : ∀ platform m, (membersOf g rules res).get? platform = some m →
      ∀ id s, m.selections.get? id = some s → res.selections.get? id = some s := by
    unfold membersOf
    refine List.foldlRecOn (motive := fun members : SortedMap ModuleId PlatformMembers =>
      ∀ platform m, members.get? platform = some m → ∀ id s, m.selections.get? id = some s →
        res.selections.get? id = some s) _ _ (fun platform m hm => (by cases hm)) ?_
    intro members hmembers x hx
    refine List.foldlRecOn (motive := fun members : SortedMap ModuleId PlatformMembers =>
      ∀ platform m, members.get? platform = some m → ∀ id s, m.selections.get? id = some s →
        res.selections.get? id = some s) _ _ hmembers ?_
    intro members hmembers p _
    exact hadd members x p (SortedMap.mem_entries_iff.1 hx) hmembers
  exact hall platform m hm id s hs

/-- The versions of members are the selected ones. -/
theorem versions_eq {platform : ModuleId} {m : PlatformMembers}
    (hm : (membersOf g rules res).get? platform = some m) :
    m.versions = m.selections.keys.filterMap res.versionOf? := by
  have hversion : ∀ x ∈ m.selections.entries, res.versionOf? x.1 = some x.2.version := by
    intro x hx
    unfold Resolution.versionOf?
    rw [selection_of_member hm (SortedMap.mem_entries_iff.1 hx)]
    rfl
  unfold PlatformMembers.versions SortedMap.values SortedMap.keys
  rw [List.filterMap_map, List.map_map, ← List.filterMap_eq_map]
  exact List.filterMap_congr fun x hx => (hversion x hx).symm

/-! ## Members by version alone -/

/-- The platforms with their members, by version alone. -/
def bareMembers (g : CandidateGraph) (rules : PlatformRules) (res : Resolution) :
    SortedMap ModuleId (Bool × SortedMap ModuleId String) :=
  (membersOf g rules res).mapValues fun _ m => m.bare

/-- Adds a member to a platform, by version alone. -/
def bareAdd (id : ModuleId) (v : String) (m : SortedMap ModuleId (Bool × SortedMap ModuleId String))
    (platform : ModuleId × Bool) : SortedMap ModuleId (Bool × SortedMap ModuleId String) :=
  m.alter platform.1 fun old => ((old.map Prod.fst).getD false || platform.2,
    ((old.map Prod.snd).getD ∅).insert id v)

theorem bare_addMember (id : ModuleId) (s : Selection) (m : SortedMap ModuleId PlatformMembers)
    (p : ModuleId × Bool) : ((addMember id s m p).mapValues fun _ m => m.bare) =
      bareAdd id s.version (m.mapValues fun _ m => m.bare) p := by
  have hinsert : ∀ selections : SortedMap ModuleId Selection,
      ((selections.insert id s).mapValues fun _ s => s.version) =
        (selections.mapValues fun _ s => s.version).insert id s.version := by
    intro selections
    refine SortedMap.ext fun t => ?_
    rw [SortedMap.get?_mapValues, SortedMap.get?_insert, SortedMap.get?_insert,
      SortedMap.get?_mapValues]
    split <;> rfl
  refine SortedMap.ext fun t => ?_
  unfold addMember bareAdd
  rw [SortedMap.get?_mapValues, SortedMap.get?_alter, SortedMap.get?_alter,
    SortedMap.get?_mapValues, SortedMap.get?_mapValues]
  split
  · unfold PlatformMembers.bare
    rw [Option.map_some]
    dsimp only
    rw [hinsert]
    cases m.get? p.1 <;> rfl
  · rfl

/-- The platforms that a module belongs to at a version. -/
def platformsAt (g : CandidateGraph) (rules : PlatformRules) (id : ModuleId) (v : String) :
    List (ModuleId × Bool) :=
  platformsOf g rules id { version := v, reason := .default, conflicted := false, demands := [] }

theorem bareMembers_eq_foldl (g : CandidateGraph) (rules : PlatformRules) (res : Resolution) :
    bareMembers g rules res = res.versions.entries.foldl
      (fun m x => (platformsAt g rules x.1 x.2).foldl (bareAdd x.1 x.2) m) ∅ := by
  unfold bareMembers membersOf
  change _ = (res.selections.entries.map fun x => (x.1, x.2.version)).foldl _ _
  rw [List.foldl_map]
  refine (List.foldl_hom (fun m : SortedMap ModuleId PlatformMembers =>
    m.mapValues fun _ m => m.bare) fun m x => ?_).symm
  exact List.foldl_hom (fun m : SortedMap ModuleId PlatformMembers =>
    m.mapValues fun _ m => m.bare) fun m p => (bare_addMember x.1 x.2 m p).symm

/-- Membership depends on the selected versions and their metadata alone. -/
theorem bareMembers_eq (hversions : ∀ id, res'.versionOf? id = res.versionOf? id)
    (hdescriptors : ∀ id v, res.versionOf? id = some v →
      g'.descriptor? (id.atVersion v) = g.descriptor? (id.atVersion v)) :
    bareMembers g' rules res' = bareMembers g rules res := by
  rw [bareMembers_eq_foldl, bareMembers_eq_foldl, Resolution.versions_eq_iff.2 hversions]
  refine List.foldl_ext _ _ _ fun m x hx => ?_
  have hversion : res.versionOf? x.1 = some x.2 := by
    rw [← res.get?_versions]
    exact SortedMap.mem_entries_iff.1 hx
  have hplatforms : platformsAt g' rules x.1 x.2 = platformsAt g rules x.1 x.2 := by
    unfold platformsAt platformsOf
    dsimp only
    rw [hdescriptors x.1 x.2 hversion]
  rw [hplatforms]

/-- A platform has the same members, at the same versions, in both resolutions. -/
theorem exists_members (hbare : bareMembers g' rules res' = bareMembers g rules res)
    {platform : ModuleId} {m : PlatformMembers}
    (hm : (membersOf g rules res).get? platform = some m) :
    ∃ m', (membersOf g' rules res').get? platform = some m' ∧ m'.bare = m.bare := by
  have hget : (bareMembers g' rules res').get? platform = (bareMembers g rules res).get? platform :=
    by rw [hbare]
  unfold bareMembers at hget
  rw [SortedMap.get?_mapValues, SortedMap.get?_mapValues, hm, Option.map_some] at hget
  exact Option.map_eq_some_iff.1 hget

/-! ## Platforms with members -/

theorem eq_of_aligned? {platform : ModuleId} {m : PlatformMembers} {p : AlignedPlatform}
    (hp : aligned? order (platform, m) = some p) :
    p.platform = platform ∧ p.members = m.selections.keys := by
  unfold aligned? at hp
  split at hp
  · obtain rfl := Option.some.inj hp
    exact ⟨rfl, rfl⟩
  · cases hp

/-- Members without a conflict have a version. -/
theorem exists_aligned {platform : ModuleId} {m : PlatformMembers} (hne : m.versions ≠ [])
    (hnone : conflict? order (platform, m) = none) :
    ∃ p, aligned? order (platform, m) = some p := by
  unfold conflict? at hnone
  unfold aligned?
  dsimp only at hnone ⊢
  cases hversion : versionOf order platform m with
  | error e =>
      rw [hversion] at hnone
      cases hnone
  | ok found =>
      cases found with
      | some v => exact ⟨_, rfl⟩
      | none =>
          exfalso
          unfold versionOf at hversion
          split at hversion
          · split at hversion <;> cases hversion
          · split at hversion
            · split at hversion <;> cases hversion
            · have hmax := Option.map_eq_none_iff.1 (Except.ok.inj hversion)
              unfold VersionOrder.maxOf at hmax
              split at hmax
              · next hnil => exact hne hnil
              · cases hmax

/-! ## Forced members -/

section

variable {m : PlatformMembers}
  (hforced : ∀ id s, m.selections.get? id = some s → s.reason = .forced)
  (platform : ModuleId)

include hforced

theorem map_version_pins : (pins m forcedBy).map Pin.version = m.versions := by
  have hreason : ∀ x ∈ m.selections.entries, x.2.reason = .forced :=
    fun x hx => hforced x.1 x.2 (SortedMap.mem_entries_iff.1 hx)
  unfold pins PlatformMembers.versions SortedMap.values
  generalize m.selections.entries = entries at hreason
  induction entries with
  | nil => rfl
  | cons x rest ih =>
      have hpin : forcedBy x.2 = some (x.2.demands.filter (·.kind = .forcedEdge)) := by
        unfold forcedBy
        rw [if_pos (hreason x List.mem_cons_self)]
      rw [List.filterMap_cons]
      dsimp only
      rw [hpin, Option.map_some, List.map_cons, List.map_cons, List.map_cons,
        ih fun y hy => hreason y (List.mem_cons_of_mem _ hy)]

/-- Forced members decide the version of their platform. -/
theorem versionOf_of_forced : (m.versions = [] ∧ versionOf order platform m = .ok none) ∨
    m.versions ≠ [] ∧ versionOf order platform m = match order.distinct m.versions with
      | [one] => .ok (some (one, true))
      | _ => .error (.versionConflict platform
          ((pins m forcedBy).flatMap fun p => p.demands.map (.pin p.member))) := by
  have hpins := map_version_pins hforced
  unfold versionOf
  cases hlist : pins m forcedBy with
  | nil =>
      left
      rw [hlist] at hpins
      have hempty : m.selections.entries = [] := by
        unfold PlatformMembers.versions SortedMap.values at hpins
        simpa using hpins.symm
      refine ⟨hpins.symm, ?_⟩
      unfold pins SortedMap.values
      rw [hempty]
      rfl
  | cons f fs =>
      right
      rw [hlist] at hpins
      constructor
      · rw [← hpins]
        exact List.cons_ne_nil _ _
      · dsimp only
        unfold agreed
        rw [hpins]
        rcases order.distinct m.versions with _ | ⟨one, _ | ⟨two, rest⟩⟩ <;> rfl

theorem aligned?_of_forced : aligned? order (platform, m) =
    match order.distinct m.versions with
    | [one] => some
      { platform
        version := one
        enforced := m.enforced
        forcedByMember := true
        members := m.selections.keys }
    | _ => none := by
  unfold aligned?
  rcases versionOf_of_forced hforced platform with ⟨hempty, hversion⟩ | ⟨-, hversion⟩
  · rw [hversion, hempty]
    rfl
  · rw [hversion]
    rcases order.distinct m.versions with _ | ⟨one, _ | ⟨two, rest⟩⟩ <;> rfl

/-- Forced members are in conflict unless their versions count as one. -/
theorem conflict?_eq_none_iff :
    conflict? order (platform, m) = none ↔ (order.distinct m.versions).length ≤ 1 := by
  unfold conflict?
  rcases versionOf_of_forced hforced platform with ⟨hempty, hversion⟩ | ⟨hne, hversion⟩
  · rw [hversion, hempty]
    exact iff_of_true rfl (Nat.zero_le 1)
  · rw [hversion]
    have hne : order.distinct m.versions ≠ [] := VersionOrder.distinct_ne_nil hne
    rcases hdistinct : order.distinct m.versions with _ | ⟨one, _ | ⟨two, rest⟩⟩
    · exact absurd hdistinct hne
    · exact iff_of_true rfl (Nat.le_refl 1)
    · exact iff_of_false (fun h => by cases h) (by simp)

end

/-! ## Alignments of forced members -/

/-- Forced members at the same versions are aligned to the same platforms. -/
theorem platforms_align_eq (order : VersionOrder)
    (hbare : bareMembers g' rules res' = bareMembers g rules res)
    (hforced : ∀ id s, res.selections.get? id = some s → s.reason = .forced)
    (hforced' : ∀ id s, res'.selections.get? id = some s → s.reason = .forced) :
    (align order g' rules res').platforms = (align order g rules res).platforms := by
  have hread : ∀ (g : CandidateGraph) (res : Resolution),
      (∀ id s, res.selections.get? id = some s → s.reason = .forced) →
      (align order g rules res).platforms = (bareMembers g rules res).entries.filterMap fun x =>
        match order.distinct x.2.2.values with
        | [one] => some
          { platform := x.1
            version := one
            enforced := x.2.1
            forcedByMember := true
            members := x.2.2.keys }
        | _ => none := by
    intro g res hforced
    rw [align_eq]
    unfold bareMembers SortedMap.mapValues
    dsimp only
    rw [List.filterMap_map]
    refine List.filterMap_congr fun x hx => ?_
    have hmembers := SortedMap.mem_entries_iff.1 hx
    rw [show x = (x.1, x.2) from rfl, aligned?_of_forced
      (fun id s hs => hforced id s (selection_of_member hmembers hs)) x.1]
    dsimp only [Function.comp_apply]
    rw [PlatformMembers.values_bare, PlatformMembers.keys_bare]
    rfl
  rw [hread g' res' hforced', hread g res hforced, hbare]

/-- The check passes if no member of any platform is astray. -/
theorem misaligned_eq_nil_iff {platforms : List AlignedPlatform} :
    misaligned order g res platforms = [] ↔ ∀ p ∈ platforms, ∀ id ∈ p.members, ∀ v,
      res.versionOf? id = some v → p.isAstray order g id v = false := by
  have hastray : ∀ p : AlignedPlatform, p.astray order g res = [] ↔
      ∀ id ∈ p.members, ∀ v, res.versionOf? id = some v → p.isAstray order g id v = false := by
    intro p
    unfold AlignedPlatform.astray
    rw [List.filterMap_eq_nil_iff]
    refine forall₂_congr fun id _ => ?_
    cases res.versionOf? id <;> simp
  unfold misaligned
  rw [List.filterMap_eq_nil_iff]
  refine forall₂_congr fun p _ => ?_
  rw [← hastray]
  cases p.astray order g res <;> simp

/-- Forced members of aligned platforms are not astray. -/
theorem misaligned_of_forced (horder : order.Oriented)
    (hforced : ∀ id s, res.selections.get? id = some s → s.reason = .forced) :
    misaligned order g res (align order g rules res).platforms = [] := by
  refine misaligned_eq_nil_iff.2 fun p hp member hmember v hversion => ?_
  obtain ⟨platform, m, hm, hp⟩ := mem_platforms_align.1 hp
  have hv : v ∈ m.versions := by
    rw [versions_eq hm, ← (eq_of_aligned? hp).2]
    exact List.mem_filterMap.2 ⟨member, hmember, hversion⟩
  rw [aligned?_of_forced fun id s hs => hforced id s (selection_of_member hm hs)] at hp
  split at hp
  · next one hone =>
    obtain rfl := Option.some.inj hp
    have hsame := VersionOrder.same_of_distinct_eq_singleton horder hone hv
    unfold AlignedPlatform.isAstray
    dsimp only
    rw [horder.same_comm, hsame]
    rfl
  · cases hp

theorem constraints_align_eq {rules rules' : PlatformRules}
    (h : (align order g' rules' res').platforms = (align order g rules res).platforms) :
    (align order g' rules' res').constraints = (align order g rules res).constraints := by
  rw [align_eq] at h ⊢
  rw [align_eq] at h ⊢
  dsimp only at h ⊢
  rw [h]

end Alignment

end Lockstep
