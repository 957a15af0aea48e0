import Lockstep.Proofs.Supply

/-!
# The same task in another order

A descriptor may list its dependencies, constraints and memberships in another
order, a request its dependencies and rules. A provider of such descriptors
gives the same answers but for that order (`Provider.Shuffled`), and a task
that differs in nothing else has the same closed scopes. So it has the same
scope (`Task.Shuffled.scope_eq`).
-/

namespace Lockstep

/-! ## Descriptors -/

/-- The same descriptor with its lists in another order. -/
structure Descriptor.Shuffled (d d' : Descriptor) : Prop where
  coordinates : d'.coordinates = d.coordinates
  category : d'.category = d.category
  dependencies : d.dependencies.Perm d'.dependencies
  constraints : d.constraints.Perm d'.constraints
  belongsTo : d.belongsTo.Perm d'.belongsTo

theorem Descriptor.Shuffled.symm {d d' : Descriptor} (h : d.Shuffled d') : d'.Shuffled d :=
  ⟨h.coordinates.symm, h.category.symm, h.dependencies.symm, h.constraints.symm, h.belongsTo.symm⟩

theorem Descriptor.Shuffled.version {d d' : Descriptor} (h : d.Shuffled d') :
    d'.version = d.version :=
  congrArg Coordinates.version h.coordinates

theorem Descriptor.Shuffled.id {d d' : Descriptor} (h : d.Shuffled d') : d'.id = d.id :=
  congrArg Coordinates.id h.coordinates

/-- The same finding, but for the order of what a descriptor lists. -/
inductive Finding.Shuffled : Finding → Finding → Prop
  | found {d d' : Descriptor} : d.Shuffled d' → Shuffled (.found d) (.found d')
  | missing (m : Miss) : Shuffled (.missing m) (.missing m)

/-- The same answer, but for the order of what a descriptor lists. -/
inductive Answer.Shuffled : Answer → Answer → Prop
  | some {d d' : Descriptor} : d.Shuffled d' → Shuffled (.ok (some d)) (.ok (some d'))
  | none : Shuffled (.ok none) (.ok none)
  | outage (o : Outage) : Shuffled (.error o) (.error o)

theorem Answer.Shuffled.symm {a a' : Answer} (h : Answer.Shuffled a a') : Answer.Shuffled a' a := by
  cases h with
  | some h => exact .some h.symm
  | none => exact .none
  | outage o => exact .outage o

theorem Answer.Shuffled.outcomeOf {a a' : Answer} (h : Answer.Shuffled a a') (q : Query) :
    CandidateGraph.outcomeOf q a' = CandidateGraph.outcomeOf q a := by
  cases h with
  | some h =>
      unfold CandidateGraph.outcomeOf
      dsimp only
      rw [h.version]
  | none => rfl
  | outage o => rfl

theorem Answer.Shuffled.findingOf {a a' : Answer} (h : Answer.Shuffled a a') :
    (CandidateGraph.findingOf a).Shuffled (CandidateGraph.findingOf a') := by
  cases h with
  | some h => exact .found h
  | none => exact .missing _
  | outage o => exact .missing _

/-! ## Providers -/

/-- The same answers to all queries, but for the order of what descriptors list. -/
def Provider.Shuffled (p p' : Provider) : Prop :=
  ∀ q, Answer.Shuffled (p q) (p' q)

namespace Provider.Shuffled

variable {p p' : Provider} (h : p.Shuffled p')

include h

theorem symm : p'.Shuffled p :=
  fun q => (h q).symm

theorem answer? (q : Query) : p'.answer? q = p.answer? q := by
  unfold Provider.answer?
  rw [(h q).outcomeOf]

theorem tells {c : Coordinates} {f : Finding} (hf : p.Tells c f) :
    ∃ f', p'.Tells c f' ∧ f.Shuffled f' := by
  obtain ⟨q, hid, hanswer, rfl⟩ := hf
  exact ⟨_, ⟨q, hid, (h.answer? q).trans hanswer, rfl⟩, (h q).findingOf⟩

theorem tells_found {c : Coordinates} {d : Descriptor} (hd : p.Tells c (.found d)) :
    ∃ d', p'.Tells c (.found d') ∧ d.Shuffled d' := by
  obtain ⟨f', hf', hshuffled⟩ := h.tells hd
  cases hshuffled with
  | found hd' => exact ⟨_, hf', hd'⟩

end Provider.Shuffled

/-! ## Catalogs -/

/-- The same catalog with the lists of its descriptors in another order. -/
def Catalog.Shuffled (c c' : Catalog) : Prop :=
  List.Forall₂ Descriptor.Shuffled c.modules c'.modules

namespace Catalog.Shuffled

/-- Filtering by what does not depend on the order of the lists. -/
theorem filter {l l' : List Descriptor} (h : List.Forall₂ Descriptor.Shuffled l l')
    {p : Descriptor → Bool} (hp : ∀ d d' : Descriptor, d.Shuffled d' → p d' = p d) :
    List.Forall₂ Descriptor.Shuffled (l.filter p) (l'.filter p) := by
  induction h with
  | nil => exact .nil
  | @cons d d' rest rest' hd _ ih =>
      rw [List.filter_cons, List.filter_cons, hp d d' hd]
      split
      · exact .cons hd ih
      · exact ih

theorem find? {l l' : List Descriptor} (h : List.Forall₂ Descriptor.Shuffled l l')
    {p : Descriptor → Bool} (hp : ∀ d d' : Descriptor, d.Shuffled d' → p d' = p d) :
    Answer.Shuffled (.ok (l.find? p)) (.ok (l'.find? p)) := by
  induction h with
  | nil => exact .none
  | @cons d d' rest rest' hd _ ih =>
      rw [List.find?_cons, List.find?_cons, hp d d' hd]
      cases p d with
      | true => exact .some hd
      | false => exact ih

variable {c c' : Catalog} (h : c.Shuffled c')

include h

theorem published (id : ModuleId) :
    List.Forall₂ Descriptor.Shuffled (c.published id) (c'.published id) :=
  filter h fun d d' hd => by rw [hd.id]

theorem versions (id : ModuleId) : c'.versions id = c.versions id := by
  unfold Catalog.versions
  have hversions : List.Forall₂ (fun d d' : Descriptor => d'.version = d.version) (c.published id)
      (c'.published id) := (h.published id).imp fun _ _ hd => Descriptor.Shuffled.version hd
  generalize c.published id = l, c'.published id = l' at hversions
  induction hversions with
  | nil => rfl
  | cons hversion _ ih => rw [List.map_cons, List.map_cons, ih, hversion]

theorem provider (order : VersionOrder) : (c.provider order).Shuffled (c'.provider order) := by
  intro q
  unfold Catalog.provider Catalog.find?
  cases q.requirement with
  | exact v => exact find? (h.published q.target) fun d d' hd => by rw [hd.version]
  | prefer v => exact find? (h.published q.target) fun d d' hd => by rw [hd.version]
  | range r =>
      dsimp only
      rw [h.versions q.target]
      cases order.maxOf ((c.versions q.target).filter (r.contains order)) with
      | none => exact .none
      | some best => exact find? (h.published q.target) fun d d' hd => by rw [hd.version]

end Catalog.Shuffled

/-! ## Dependencies of a version -/

namespace Builder

variable {rules rules' : PlatformRules} {root c : Coordinates} {d d' : Descriptor}

theorem publishedPlatforms_eq (hrules : rules.Perm rules') (h : d.Shuffled d') :
    publishedPlatforms rules' root d' = publishedPlatforms rules root d := by
  unfold publishedPlatforms PlatformRules.memberships
  dsimp only
  rw [h.id]
  refine SortedSet.ofList_eq_of_perm (List.Perm.filter _ ?_)
  exact ((hrules.filter _).filterMap _).symm.append (h.belongsTo.filterMap _).symm

theorem outgoingOf_perm (hrules : rules.Perm rules') (h : d.Shuffled d') :
    (outgoingOf rules root c d).Perm (outgoingOf rules' root c d') := by
  unfold outgoingOf
  rw [publishedPlatforms_eq hrules h]
  exact ((h.dependencies.filter _).map _).append_right _

end Builder

/-! ## Tasks -/

/-- The same task with its lists, and those of descriptors, in another order. -/
structure Task.Shuffled (t t' : Task) : Prop where
  provider : t.provider.Shuffled t'.provider
  rules : t.rules.Perm t'.rules
  root : t'.root = t.root
  dependencies : t.dependencies.Perm t'.dependencies
  constraints : t'.constraints = t.constraints

namespace Task.Shuffled

variable {t t' : Task} {S : Scope} {b b' : Builder}

theorem symm (h : t.Shuffled t') : t'.Shuffled t :=
  ⟨h.provider.symm, h.rules.symm, h.root.symm, h.dependencies.symm, h.constraints.symm⟩

variable (h : t.Shuffled t')

include h

theorem declared : t'.declared = t.declared := by
  unfold Task.declared
  rw [h.constraints]

theorem requests {c : Coordinates} {r : Dependency × Bool} (hr : t.Requests c r) :
    t'.Requests c r := by
  obtain ⟨d, htells, hr⟩ := hr
  obtain ⟨d', htells', hd⟩ := h.provider.tells_found htells
  refine ⟨d', htells', ?_⟩
  rw [h.root]
  exact (Builder.outgoingOf_perm h.rules hd).mem_iff.1 hr

theorem constrains {c : Coordinates} {q : Query} (hq : t.Constrains c q) : t'.Constrains c q := by
  obtain ⟨d, htells, k, hk, rfl⟩ := hq
  obtain ⟨d', htells', hd⟩ := h.provider.tells_found htells
  exact ⟨d', htells', k, hd.constraints.mem_iff.1 hk, rfl⟩

theorem meets {d : Dependency} {inherited : Exclusions} (hd : S.Meets t.provider d inherited) :
    S.Meets t'.provider d inherited := by
  refine ⟨hd.asked, ?_⟩
  rw [h.provider.answer?]
  exact hd.arrives

theorem closed (hclosed : t.Closed S) : t'.Closed S := by
  constructor
  case root =>
    intro d hd hne
    rw [h.root] at hne
    exact h.meets (hclosed.root d (h.dependencies.mem_iff.2 hd) hne)
  case onward =>
    exact fun c hc set hset r hr hex => h.meets (hclosed.onward c hc set hset r (h.symm.requests hr)
      hex)
  case constrained =>
    intro q hq set hset
    rw [h.declared] at hq
    have hlooked := hclosed.constrained q
      (hq.imp_right fun ⟨c, hc, hconstrains⟩ => ⟨c, hc, h.symm.constrains hconstrains⟩) set hset
    refine ⟨hlooked.asked, fun v hv => hlooked.nodes v ?_⟩
    rw [← h.provider.answer?]
    exact hv

/-- Finished builders of both tasks have the same scope. -/
theorem scope_eq (hsteady : t.provider.Steady) (hsteady' : t'.provider.Steady)
    (hb : t.Finished b) (hb' : t'.Finished b') : b'.scope = b.scope :=
  Scope.le_antisymm (hb'.scope_le (h.closed (hb.closed_scope hsteady)))
    (hb.scope_le (h.symm.closed (hb'.closed_scope hsteady')))

end Task.Shuffled

end Lockstep
