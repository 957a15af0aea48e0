import Lockstep.Proofs.Executions

/-!
# Outages

Some modules of a catalog may be out of reach. Every query for such a module
then fails in the same way, so the provider is as steady as before
(`Provider.Steady.withOutages`), and it finds nothing that the catalog does not
have (`Catalog.Supplies.withOutages`). So a build still comes to a graph, and to
the same one in whatever order the lookups of its levels come in
(`Builder.scheduleless`).
-/

namespace Lockstep

namespace Provider

variable {p : Provider} {outages : SortedMap ModuleId String} {c : Coordinates} {f : Finding}

/-- Of the versions of a failing module, every answer says that it failed. -/
theorem eq_of_tells_withOutages {message : String} (hout : outages.get? c.id = some message)
    (h : (p.withOutages outages).Tells c f) : f = .missing (.unavailable ⟨c.id, message⟩) := by
  obtain ⟨q, hid, -, rfl⟩ := h
  unfold withOutages
  rw [hid, hout]
  rfl

/-- Of all others, answers say what they said. -/
theorem tells_of_withOutages (hout : outages.get? c.id = none)
    (h : (p.withOutages outages).Tells c f) : p.Tells c f := by
  obtain ⟨q, hid, hanswer, rfl⟩ := h
  have hsame : p.withOutages outages q = p q := by
    unfold withOutages
    rw [hid, hout]
  unfold answer? at hanswer
  rw [hsame] at hanswer ⊢
  exact ⟨q, hid, hanswer, rfl⟩

theorem Steady.withOutages (h : p.Steady) (outages : SortedMap ModuleId String) :
    (p.withOutages outages).Steady := by
  intro c f f' hf hf'
  cases hout : outages.get? c.id with
  | some message =>
      rw [eq_of_tells_withOutages hout hf, eq_of_tells_withOutages hout hf']
  | none =>
      apply h c
      · exact tells_of_withOutages hout hf
      · exact tells_of_withOutages hout hf'

end Provider

theorem Catalog.Supplies.withOutages {catalog : Catalog} {p : Provider} (h : catalog.Supplies p)
    (outages : SortedMap ModuleId String) : catalog.Supplies (p.withOutages outages) := by
  intro c d hd
  cases hout : outages.get? c.id with
  | some message =>
      have hmissing := Provider.eq_of_tells_withOutages hout hd
      cases hmissing
  | none =>
      apply h
      exact Provider.tells_of_withOutages hout hd

namespace Builder

variable {p : Provider} {rules : PlatformRules} {b : Builder} {levels : Nat} {g : CandidateGraph}

/-- If a build comes to a graph when it makes its lookups one after the other, it can come to it
behind a cache that tells what the provider would. -/
theorem exists_builds_cached (h : ((b.run p.lookup rules levels).run ()).1 = some g)
    (permits : Nat) {cache : Cache} (hcache : cache.Faithful p) (asked : List Query) :
    ∃ looked s, Builds (Cache.serves p permits) rules b (cache, asked) looked g s := by
  obtain ⟨hsame, -⟩ := run_eq (Cache.answersFor_lookup p) rules levels b hcache
  have hcached : ((b.run (Cache.lookup p) rules levels).run cache).1 = some g := hsame.trans h
  obtain ⟨looked, s, hbuilds, -⟩ := exists_builds (s := (cache, asked))
    (Cache.allows_lookup p permits) hcached
  exact ⟨looked, s, hbuilds⟩

/-- And it comes to no other graph, whatever the schedule. -/
theorem eq_of_builds_cached (hsteady : p.Steady)
    (h : ((b.run p.lookup rules levels).run ()).1 = some g) {permits : Nat} {cache : Cache}
    {asked before looked : List Query} (hbalanced : cache.Balanced p asked before [] [])
    {g' : CandidateGraph} {s : Cache × List Query}
    (hbuilds : Builds (Cache.serves p permits) rules b (cache, asked) looked g' s) : g' = g := by
  obtain ⟨⟨levels', hrun⟩, -⟩ := hbuilds.sound (Cache.answersFor_serves p permits) hsteady hbalanced
  obtain ⟨heq, -⟩ := run_agree p.lookup rules (Prod.ext hrun rfl) (Prod.ext h rfl)
  exact heq

/-- Over a catalog with outages, answers may be recorded in any order, and so a build comes to one
graph, however many lookups may run at a time, however they are interleaved, and whatever the cache
has heard before. -/
theorem scheduleless (catalog : Catalog) (scheme : Scheme) (outages : SortedMap ModuleId String)
    (rules : PlatformRules) (root : Coordinates) (dependencies : List Dependency)
    (constraints : SortedSet Constraint) :
    let p := (catalog.provider scheme.order).withOutages outages
    (∀ (b : Builder) (keys : List Query) (joined joined' : List (Query × Answer)),
      joined.Perm (keys.map fun q => (q, p q)) → joined'.Perm joined →
        b.recordJoined joined = b.recordJoined joined') ∧
    ∃ g, (((start root dependencies constraints).run p.lookup rules
        ((catalog.reach rules).levels dependencies constraints)).run ()).1 = some g ∧
      ∀ (permits : Nat) (cache : Cache) (asked before : List Query),
        cache.Balanced p asked before [] [] →
        (∃ looked s, Builds (Cache.serves p permits) rules (start root dependencies constraints)
          (cache, asked) looked g s) ∧
        ∀ looked g' s, Builds (Cache.serves p permits) rules (start root dependencies constraints)
          (cache, asked) looked g' s → g' = g := by
  intro p
  have hsteady : p.Steady := (Catalog.steady_provider (Scheme.oriented _)).withOutages outages
  have hsupplies : catalog.Supplies p :=
    (catalog.supplies_provider scheme.order).withOutages outages
  refine ⟨fun b keys joined joined' hjoined hperm => ?_, ?_⟩
  · rw [recordJoined_eq hsteady hjoined, recordJoined_eq hsteady (hperm.trans hjoined)]
  · -- Nothing is found that the catalog does not have, so its reach bounds this build as well.
    let t : Task := ⟨p, rules, root, dependencies, constraints⟩
    obtain ⟨g, hg⟩ := Task.exists_run_of_supplies (t := t) hsupplies ()
    have hrun := congrArg Prod.fst hg
    refine ⟨g, hrun, fun permits cache asked before hbalanced => ⟨?_, ?_⟩⟩
    · exact exists_builds_cached hrun permits hbalanced.faithful asked
    · intro looked g' s hbuilds
      exact eq_of_builds_cached hsteady hrun hbalanced hbuilds

end Builder

namespace Sample

/-- `auth` asks for any `core` from 1 to 3, and for `log`. -/
def ranging : Catalog :=
  ⟨[describe "auth" "1.0.0" [rangeOf "core" "1.0.0" "3.0.0", dependency "log" "1.0.0"],
    describe "core" "1.0.0" [], describe "core" "2.0.0" [], describe "core" "3.0.0" [],
    describe "log" "1.0.0" []]⟩

/-- There is no answer about `log`. -/
def silent : SortedMap ModuleId String :=
  .ofList [(id "log", "no answer")]

def rangingProvider : Provider :=
  (ranging.provider Scheme.semver.order).withOutages silent

def rangingRoots : List Dependency :=
  [dependency "auth" "1.0.0", dependency "core" "1.0.0"]

end Sample

/-- Two answers are recorded in either order, and the graph is the same behind a cache that has
heard one of them before. -/
theorem Builder.scheduleless_over_ranging :
    let p := Sample.rangingProvider
    let b := start Sample.root Sample.rangingRoots ∅
    let auth : Query := ⟨Sample.id "auth", .exact "1.0.0"⟩
    let core : Query := ⟨Sample.id "core", .exact "1.0.0"⟩
    let cache : Cache := ({ misses := 1 } : Cache).store core (p core)
    let levels := (Sample.ranging.reach []).levels Sample.rangingRoots ∅
    b.recordJoined [(core, p core), (auth, p auth)] =
      b.recordJoined [(auth, p auth), (core, p core)] ∧
    cache.Balanced p [core] [core] [] [] ∧
    ∃ g looked s, ((b.run p.lookup [] levels).run ()).1 = some g ∧
      Builds (Cache.serves p 2) [] b (cache, [core]) looked g s := by
  intro p b auth core cache levels
  have hbalanced : cache.Balanced p [core] [core] [] [] := by
    have hcheck : ({} : Cache).check core = (none, { misses := 1 }) := rfl
    have hmiss := (Cache.balanced_empty p).miss hcheck List.not_mem_nil
    exact (hmiss.fetch List.not_mem_nil).store
  obtain ⟨hrecorded, g, hrun, hbuilds⟩ := scheduleless Sample.ranging .semver Sample.silent []
    Sample.root Sample.rangingRoots ∅
  obtain ⟨⟨looked, s, hbuild⟩, -⟩ := hbuilds 2 cache [core] [core] hbalanced
  exact ⟨hrecorded b [auth, core] _ _ (.swap _ _ _) (.swap _ _ _), hbalanced, g, looked, s, hrun,
    hbuild⟩

end Lockstep
