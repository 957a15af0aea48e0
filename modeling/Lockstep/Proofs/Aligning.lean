import Lockstep.Proofs.Convergence
import Lockstep.Proofs.Members

/-!
# Virtual platforms in the end

The members of a virtual platform are the selected modules that a rule or their
own metadata puts there (`Alignment.has_membersOf`), and every platform with a
member is in the outcome. A run converges with each member at the version of its
platform, or left behind by a platform that holds nobody by force and whose
version the member does not publish.

Whether it does is looked up by name. A member that publishes this version under
another name only is left behind as well (`Request.aligned_of_converged`).
-/

namespace Lockstep

/-! ## Members -/

/-- A module with this metadata is a member of the virtual platform. -/
structure Descriptor.Belongs (rules : PlatformRules) (d : Descriptor) (platform : ModuleId) :
    Prop where
  ordinary : d.category.isPlatform = false
  other : platform ≠ d.id
  joined : (∃ rule ∈ rules, rule.members.includes d.id = true ∧ rule.kind.isVirtual = true ∧
      rule.platform = platform) ∨
    ∃ m ∈ d.belongsTo, m.isVirtual = true ∧ m.platform = platform

namespace Alignment

variable {g : CandidateGraph} {rules : PlatformRules} {res : Resolution}

theorem mem_platformsOf {id : ModuleId} {s : Selection} {d : Descriptor}
    (hd : g.descriptor? (id.atVersion s.version) = some d) (hid : d.id = id) {platform : ModuleId} :
    (∃ enforced, (platform, enforced) ∈ platformsOf g rules id s) ↔ d.Belongs rules platform := by
  subst hid
  unfold platformsOf PlatformRules.memberships
  rw [hd]
  cases hcategory : d.category.isPlatform with
  | true =>
      simp only [Option.any_some, hcategory, if_true, List.not_mem_nil, exists_false, false_iff]
      intro h
      rw [h.ordinary] at hcategory
      cases hcategory
  | false =>
      simp only [Option.any_some, hcategory, Bool.false_eq_true, if_false, Option.map_some,
        Option.getD_some, List.mem_filter, List.mem_append, List.mem_filterMap, bne_iff_ne]
      constructor
      · rintro ⟨enforced, ⟨rule, ⟨hrule, hincludes⟩, heq⟩ | ⟨m, hm, heq⟩, hne⟩
        · split at heq
          · next hvirtual =>
            obtain ⟨rfl, -⟩ := Prod.mk.inj (Option.some.inj heq)
            exact ⟨hcategory, hne, Or.inl ⟨rule, hrule, hincludes, hvirtual, rfl⟩⟩
          · cases heq
        · split at heq
          · next hvirtual =>
            obtain ⟨rfl, -⟩ := Prod.mk.inj (Option.some.inj heq)
            refine ⟨hcategory, hne, Or.inr ⟨m, hm, ?_, rfl⟩⟩
            cases hm : m.isVirtual with
            | true => rfl
            | false =>
                unfold Membership.kind at hvirtual
                rw [hm] at hvirtual
                cases hvirtual
          · cases heq
      · rintro ⟨-, hne, ⟨rule, hrule, hincludes, hvirtual, rfl⟩ | ⟨m, hm, hvirtual, rfl⟩⟩
        · exact ⟨_, Or.inl ⟨rule, ⟨hrule, hincludes⟩, if_pos hvirtual⟩, hne⟩
        · refine ⟨false, Or.inr ⟨m, hm, if_pos ?_⟩, hne⟩
          unfold Membership.kind
          rw [hvirtual]
          rfl

/-- The module is among the members of the platform. -/
def Has (members : SortedMap ModuleId PlatformMembers) (platform id : ModuleId) : Prop :=
  ∃ m, members.get? platform = some m ∧ id ∈ m.selections.keys

theorem has_addMember {members : SortedMap ModuleId PlatformMembers} {id id' platform : ModuleId}
    {s : Selection} {p : ModuleId × Bool} : Has (addMember id s members p) platform id' ↔
      (platform = p.1 ∧ id' = id) ∨ Has members platform id' := by
  unfold Has addMember
  rw [SortedMap.get?_alter]
  -- only the platform that is added to changes, and there only the one member
  by_cases hplatform : platform = p.1
  · subst hplatform
    rw [if_pos rfl]
    constructor
    · rintro ⟨m, hm, hid⟩
      obtain rfl := Option.some.inj hm
      obtain ⟨s', hs'⟩ := SortedMap.mem_keys_iff.1 hid
      rw [SortedMap.get?_insert] at hs'
      split at hs'
      · next heq => exact Or.inl ⟨rfl, heq⟩
      · cases hold : members.get? p.1 with
        | none =>
            rw [hold] at hs'
            cases hs'
        | some old =>
            rw [hold] at hs'
            exact Or.inr ⟨old, rfl, SortedMap.mem_keys_iff.2 ⟨s', hs'⟩⟩
    · intro h
      refine ⟨_, rfl, SortedMap.mem_keys_iff.2 ?_⟩
      dsimp only
      rw [SortedMap.get?_insert]
      by_cases hid : id' = id
      · exact ⟨s, if_pos hid⟩
      · obtain ⟨m, hm, hmem⟩ := h.resolve_left fun hc => hid hc.2
        rw [if_neg hid, hm]
        exact SortedMap.mem_keys_iff.1 hmem
  · rw [if_neg hplatform]
    exact ⟨Or.inr, fun h => h.resolve_left fun hc => hplatform hc.1⟩

theorem has_foldl_addMember {id id' platform : ModuleId} {s : Selection}
    (ps : List (ModuleId × Bool)) (members : SortedMap ModuleId PlatformMembers) :
    Has (ps.foldl (addMember id s) members) platform id' ↔
      (∃ enforced, (platform, enforced) ∈ ps ∧ id' = id) ∨ Has members platform id' := by
  induction ps generalizing members with
  | nil => simp
  | cons p rest ih =>
      obtain ⟨platform', enforced'⟩ := p
      rw [List.foldl_cons, ih, has_addMember]
      constructor
      · rintro (⟨enforced, hmem, hid⟩ | ⟨rfl, hid⟩ | h)
        · exact Or.inl ⟨enforced, List.mem_cons_of_mem _ hmem, hid⟩
        · exact Or.inl ⟨enforced', List.mem_cons_self, hid⟩
        · exact Or.inr h
      · rintro (⟨enforced, hmem, hid⟩ | h)
        · rcases List.mem_cons.1 hmem with heq | hmem
          · exact Or.inr (Or.inl ⟨(Prod.mk.inj heq).1, hid⟩)
          · exact Or.inl ⟨enforced, hmem, hid⟩
        · exact Or.inr (Or.inr h)

/-- The members of platforms are the selected modules that belong there. -/
theorem has_membersOf {platform id : ModuleId} : Has (membersOf g rules res) platform id ↔
    ∃ s, res.selections.get? id = some s ∧
      ∃ enforced, (platform, enforced) ∈ platformsOf g rules id s := by
  -- for any selections still to go through and any members found so far
  suffices hgen : ∀ (entries : List (ModuleId × Selection))
      (members : SortedMap ModuleId PlatformMembers),
      Has (entries.foldl (fun m x => (platformsOf g rules x.1 x.2).foldl (addMember x.1 x.2) m)
        members) platform id ↔
      (∃ s, (id, s) ∈ entries ∧ ∃ enforced, (platform, enforced) ∈ platformsOf g rules id s) ∨
        Has members platform id by
    have hnone : ¬Has ∅ platform id := by
      rintro ⟨m, hm, -⟩
      cases hm
    show Has (res.selections.entries.foldl
      (fun m x => (platformsOf g rules x.1 x.2).foldl (addMember x.1 x.2) m) ∅) platform id ↔ _
    rw [hgen, or_iff_left hnone]
    exact exists_congr fun s => and_congr_left fun _ => SortedMap.mem_entries_iff
  intro entries
  induction entries with
  | nil => simp
  | cons x rest ih =>
      obtain ⟨id', s'⟩ := x
      intro members
      rw [List.foldl_cons, ih, has_foldl_addMember]
      constructor
      · rintro (⟨s, hs, hplatform⟩ | ⟨enforced, hmem, rfl⟩ | h)
        · exact Or.inl ⟨s, List.mem_cons_of_mem _ hs, hplatform⟩
        · exact Or.inl ⟨s', List.mem_cons_self, enforced, hmem⟩
        · exact Or.inr h
      · rintro (⟨s, hs, hplatform⟩ | h)
        · rcases List.mem_cons.1 hs with heq | hs
          · obtain ⟨rfl, rfl⟩ := Prod.mk.inj heq
            obtain ⟨enforced, hmem⟩ := hplatform
            exact Or.inr (Or.inl ⟨enforced, hmem, rfl⟩)
          · exact Or.inl ⟨s, hs, hplatform⟩
        · exact Or.inr (Or.inr h)

/-- A platform of an alignment lists its members. -/
theorem mem_members_iff {order : VersionOrder} {p : AlignedPlatform}
    (hp : p ∈ (align order g rules res).platforms) {id : ModuleId} :
    id ∈ p.members ↔ Has (membersOf g rules res) p.platform id := by
  obtain ⟨platform, m, hm, haligned⟩ := mem_platforms_align.1 hp
  obtain ⟨rfl, hmembers⟩ := eq_of_aligned? haligned
  rw [hmembers]
  constructor
  · exact fun hid => ⟨m, hm, hid⟩
  · rintro ⟨m', hm', hid⟩
    rwa [Option.some.inj (hm.symm.trans hm')]

/-- A platform with a member is in every alignment without errors. -/
theorem exists_platform_of_has {order : VersionOrder} (h : (align order g rules res).errors = [])
    {platform id : ModuleId} (hid : Has (membersOf g rules res) platform id) :
    ∃ p ∈ (align order g rules res).platforms, p.platform = platform := by
  obtain ⟨m, hm, hmem⟩ := hid
  obtain ⟨s, hs⟩ := SortedMap.mem_keys_iff.1 hmem
  have hne : m.versions ≠ [] := by
    refine List.ne_nil_of_mem (List.mem_map.2 ⟨s, SortedMap.mem_values_iff.2 ⟨id, hs⟩, rfl⟩)
  obtain ⟨p, hp⟩ := exists_aligned hne (errors_align_eq_nil_iff.1 h platform m hm)
  exact ⟨p, mem_platforms_align.2 ⟨platform, m, hm, hp⟩, (eq_of_aligned? hp).1⟩

end Alignment

/-! ## Versions under other names -/

namespace Catalog

variable {catalog : Catalog} {order : VersionOrder} {id : ModuleId} {v : String}

/-- The version is not found under its own name: it is not published, or what is published first
and counts as it goes by another name. -/
def Lacks (catalog : Catalog) (order : VersionOrder) (id : ModuleId) (v : String) : Prop :=
  ∀ d, catalog.find? order ⟨id, .exact v⟩ = some d → d.version ≠ v

/-- Where no other version counts as it, a version that is not found is not published. -/
theorem same_eq_false_of_lacks (hnames : catalog.Names order id v) (h : catalog.Lacks order id v)
    {d : Descriptor} (hd : d ∈ catalog.published id) : order.same d.version v = false := by
  cases hfind : catalog.find? order ⟨id, .exact v⟩ with
  | none => exact find?_eq_none (q := ⟨id, .exact v⟩) rfl hfind hd
  | some d' =>
      have hmem : d' ∈ catalog.published id :=
        List.mem_of_find?_eq_some (describe?_of_find? hfind)
      have hfirst : (catalog.published id).find? (fun d => order.same d.version v) = some d' :=
        hfind
      have hsame := List.find?_some hfirst
      exact absurd (hnames d' hmem hsame) (h d' hfind)

end Catalog

/-! ## Runs that converge -/

namespace Run.Converges

variable {r : Run} {catalog : Catalog} {it : Iteration} {b : Builder} {res : Resolution}
  (h : r.Converges (catalog.provider r.order) it b res)

include h

/-- A module is in a platform if its selected version belongs there by its metadata. -/
theorem has_iff {platform id : ModuleId} :
    Alignment.Has (Alignment.membersOf b.graph r.rules res) platform id ↔
      ∃ v d, res.versionOf? id = some v ∧ catalog.describe? (id.atVersion v) = some d ∧
        d.Belongs r.rules platform := by
  -- the graph knows of a selected version what the catalog says
  have hdescribed : ∀ s, res.selections.get? id = some s →
      ∃ d, catalog.describe? (id.atVersion s.version) = some d ∧ d.id = id ∧
        b.graph.descriptor? (id.atVersion s.version) = some d := by
    intro s hs
    obtain ⟨d, hd⟩ := h.exists_told (Option.map_eq_some_iff.2 ⟨s, hs, rfl⟩)
    rcases Catalog.tells_provider (h.finished.tells hd) with ⟨d', heq, hdescribe⟩ | ⟨hne, -⟩
    · obtain rfl := Finding.found.inj heq
      exact ⟨d, hdescribe, congrArg Coordinates.id (Catalog.mem_of_describe? hdescribe).2,
        CandidateGraph.descriptor?_eq_some_iff.2 hd⟩
    · cases hne
  rw [Alignment.has_membersOf]
  constructor
  · rintro ⟨s, hs, hplatform⟩
    obtain ⟨d, hdescribe, hid, hd⟩ := hdescribed s hs
    exact ⟨s.version, d, Option.map_eq_some_iff.2 ⟨s, hs, rfl⟩, hdescribe,
      (Alignment.mem_platformsOf hd hid).1 hplatform⟩
  · rintro ⟨v, d, hv, hdescribe, hbelongs⟩
    obtain ⟨s, hs, rfl⟩ := Option.map_eq_some_iff.1 hv
    obtain ⟨d', hdescribe', hid, hd⟩ := hdescribed s hs
    obtain rfl := Option.some.inj (hdescribe.symm.trans hdescribe')
    exact ⟨s, hs, (Alignment.mem_platformsOf hd hid).2 hbelongs⟩

/-- A member is at the version of its platform, unless nothing holds it there and it lacks that
version. -/
theorem same_or_lacks (horder : r.order.Oriented) {p : AlignedPlatform}
    (hp : p ∈ (align r.order b.graph r.rules res).platforms) {id : ModuleId} (hid : id ∈ p.members)
    {v : String} (hv : res.versionOf? id = some v) :
    r.order.same v p.version = true ∨ p.strict = false ∧ catalog.Lacks r.order id p.version := by
  have hplaced := Alignment.misaligned_eq_nil_iff.1 h.placed p hp id hid v hv
  unfold AlignedPlatform.isAstray at hplaced
  rw [Bool.and_eq_false_iff, Bool.not_eq_false', Bool.or_eq_false_iff] at hplaced
  refine hplaced.imp_right fun ⟨hstrict, hmissing⟩ => ⟨hstrict, fun d hfind hversion => ?_⟩
  -- the constraint of this pass has made the builder look the version up
  have hk : p.constraint id ∈ it.constraints := by
    rw [← h.stable]
    exact SortedSet.mem_union.2 (Or.inr (Alignment.mem_constraints_align.2 ⟨p, hp, id, hid, rfl⟩))
  obtain ⟨last, live, round, hsettles, hprovided, rfl⟩ := h.exists_last
  obtain ⟨s, hs, -⟩ := Option.map_eq_some_iff.1 hv
  obtain ⟨es, hes⟩ := hsettles.exists_incoming hs
  obtain ⟨o, ho, hnode⟩ := h.finished.coverage.asked_of_applied hprovided.guides hsettles.walked
    (Demands.mem_applied.2 (Or.inl hk)) hes
  have hanswer : (catalog.provider r.order).answer? ⟨id, .exact p.version⟩ = some p.version := by
    rw [Provider.answer?_eq_some_iff]
    unfold Catalog.provider
    rw [hfind]
    exact congrArg Except.ok hversion
  have hreached : b.region.nodes (id.atVersion p.version) :=
    hnode p.version ((h.finished.answer?_eq ⟨o, ho⟩).trans hanswer)
  have htells : (catalog.provider r.order).Tells (id.atVersion p.version) (.found d) := by
    refine ⟨⟨id, .exact p.version⟩, rfl, hanswer, ?_⟩
    unfold Catalog.provider
    rw [hfind]
    rfl
  rw [h.finished.descriptor?_eq (Catalog.steady_provider horder) hreached htells] at hmissing
  cases hmissing

end Run.Converges

/-- The selected version of the module belongs to the platform by its metadata. -/
def ResolvedGraph.Joins (G : ResolvedGraph) (catalog : Catalog) (rules : PlatformRules)
    (id platform : ModuleId) : Prop :=
  ∃ v d, G.versionOf? id = some v ∧ catalog.describe? (id.atVersion v) = some d ∧
    d.Belongs rules platform

/-- Where a run converges, the platforms are those that a selected module belongs to, with these
modules as members; and a member is at the version of its platform, unless the platform holds
nobody by force and the member lacks that version, which it then does not publish if it has no
other name. -/
theorem Request.aligned_of_converged {request : Request} {settings : Settings} {catalog : Catalog}
    {G : ResolvedGraph} (h : request.resolveOver settings catalog = .converged G) :
    (∀ id platform, G.Joins catalog request.rules id platform →
      ∃ p ∈ G.platforms, p.platform = platform) ∧
    ∀ p ∈ G.platforms,
      (∀ id, id ∈ p.members ↔ G.Joins catalog request.rules id p.platform) ∧
      ∀ id ∈ p.members, ∀ v, G.versionOf? id = some v →
        (request.order settings).same v p.version = true ∨
          p.strict = false ∧ catalog.Lacks (request.order settings) id p.version ∧
            (catalog.Names (request.order settings) id p.version → ∀ d ∈ catalog.published id,
              (request.order settings).same d.version p.version = false) := by
  obtain ⟨it, b, res, hconverges, rfl, -⟩ := Run.exists_converges h
  have horder : (Run.ofRequest request settings catalog).order.Oriented := Scheme.oriented _
  have hversions : ((Run.ofRequest request settings catalog).graphOf it b.graph res).versionOf? =
      res.versionOf? :=
    funext fun id => ResolvedGraph.versionOf?_ofResolution id
  unfold ResolvedGraph.Joins
  rw [hversions]
  refine ⟨?_, fun p hp => ⟨?_, ?_⟩⟩
  · exact fun id platform hjoins =>
      Alignment.exists_platform_of_has hconverges.aligned (hconverges.has_iff.2 hjoins)
  · exact fun id => (Alignment.mem_members_iff hp).trans hconverges.has_iff
  · intro id hid v hv
    refine (hconverges.same_or_lacks horder hp hid hv).imp_right fun hleft => ?_
    obtain ⟨hstrict, hlacks⟩ := hleft
    exact ⟨hstrict, hlacks, fun hnames _ hd => Catalog.same_eq_false_of_lacks hnames hlacks hd⟩

/-! ### Members that are left behind -/

namespace Sample

/-- Two members of one platform, of which `base` has to stay below its version. -/
def bounded : Request where
  root
  dependencies := [dependency "auth" "1.0", rangeOf "base" "0" "0.9"]
  rules := [⟨.one (id "auth"), id "suite", .virtual⟩, ⟨.one (id "base"), id "suite", .virtual⟩]

/-- There is no `base` at the version of the platform. -/
def behind : Catalog :=
  ⟨[describe "auth" "1.0" [], describe "base" "0.5" []]⟩

/-- There is one, but under another name. -/
def level : Catalog :=
  ⟨[describe "auth" "1.0" [], describe "base" "0.5" [], describe "base" "1" []]⟩

end Sample

theorem Request.aligned_over_behind : ∃ G p, Sample.bounded.resolveOver {} Sample.behind =
      .converged G ∧
    p ∈ G.platforms ∧ G.versionOf? (Sample.id "base") = some "0.5" ∧
    G.Joins Sample.behind Sample.bounded.rules (Sample.id "base") p.platform ∧
    Sample.behind.Lacks (Sample.bounded.order {}) (Sample.id "base") p.version := by
  have hfound : ((Sample.bounded.resolveOver {} Sample.behind).graph?.any fun G =>
      ∃ p ∈ G.platforms, Sample.id "base" ∈ p.members ∧
        G.versionOf? (Sample.id "base") = some "0.5" ∧
        (Sample.bounded.order {}).same "0.5" p.version = false) = true := by
    decide +kernel
  obtain ⟨G, hgraph, hcond⟩ := (Option.any_eq_true _ _).1 hfound
  obtain ⟨p, hp, hbase, hversion, hbehind⟩ := of_decide_eq_true hcond
  have hconverged := Outcome.eq_of_graph? hgraph
  obtain ⟨hmembers, haligned⟩ := (aligned_of_converged hconverged).2 p hp
  refine ⟨G, p, hconverged, hp, hversion, (hmembers _).1 hbase, ?_⟩
  rcases haligned _ hbase _ hversion with hsame | ⟨-, hlacks, -⟩
  · rw [hbehind] at hsame
    cases hsame
  · exact hlacks

/-- A member that publishes the version of its platform is left behind without need. -/
theorem Request.left_behind_over_level : ∃ G p, Sample.bounded.resolveOver {} Sample.level =
      .converged G ∧
    p ∈ G.platforms ∧ p.strict = false ∧ Sample.id "base" ∈ p.members ∧
    G.versionOf? (Sample.id "base") = some "0.5" ∧
    (Sample.bounded.order {}).same "0.5" p.version = false ∧
    ∃ d ∈ Sample.level.published (Sample.id "base"),
      (Sample.bounded.order {}).same d.version p.version = true := by
  have hfound : ((Sample.bounded.resolveOver {} Sample.level).graph?.any fun G =>
      ∃ p ∈ G.platforms, p.strict = false ∧ Sample.id "base" ∈ p.members ∧
        G.versionOf? (Sample.id "base") = some "0.5" ∧
        (Sample.bounded.order {}).same "0.5" p.version = false ∧
        ∃ d ∈ Sample.level.published (Sample.id "base"),
          (Sample.bounded.order {}).same d.version p.version = true) = true := by
    decide +kernel
  obtain ⟨G, hgraph, hcond⟩ := (Option.any_eq_true _ _).1 hfound
  obtain ⟨p, hp, hlost⟩ := of_decide_eq_true hcond
  exact ⟨G, p, Outcome.eq_of_graph? hgraph, hp, hlost⟩

end Lockstep
