import Lockstep.Proofs.Orders
import Lockstep.Proofs.Scope

/-!
# What a catalog tells

Whatever the query, a catalog answers with the first descriptor of the version
that it comes to, so all its answers agree (`Catalog.steady_provider`).
-/

namespace Lockstep

namespace Catalog

variable {catalog : Catalog} {order : VersionOrder}

/-- The first descriptor of a version. -/
def describe? (catalog : Catalog) (c : Coordinates) : Option Descriptor :=
  (catalog.published c.id).find? (·.version == c.version)

theorem mem_of_describe? {c : Coordinates} {d : Descriptor} (h : catalog.describe? c = some d) :
    d ∈ catalog.modules ∧ d.coordinates = c := by
  obtain ⟨hmem, hid⟩ := List.mem_filter.1 (List.mem_of_find?_eq_some h)
  have hversion := List.find?_some h
  rw [beq_iff_eq] at hid hversion
  refine ⟨hmem, ?_⟩
  obtain ⟨id, version⟩ := c
  exact (congrArg₂ Coordinates.mk hid hversion : Coordinates.mk d.id d.version = _)

/-- A search by version finds the first descriptor of the version that it finds. -/
theorem find?_version {p : Descriptor → Bool} {l : List Descriptor} {d : Descriptor}
    (hp : ∀ a b, a.version = b.version → p a = p b) (h : l.find? p = some d) :
    l.find? (·.version == d.version) = some d := by
  induction l with
  | nil => cases h
  | cons a rest ih =>
      rw [List.find?_cons] at h
      rw [List.find?_cons]
      cases ha : p a with
      | true =>
          rw [ha] at h
          obtain rfl := Option.some.inj h
          rw [beq_self_eq_true]
      | false =>
          rw [ha] at h
          have hne : (a.version == d.version) = false := by
            rw [beq_eq_false_iff_ne]
            intro heq
            rw [hp a d heq, List.find?_some h] at ha
            cases ha
          rw [hne]
          exact ih h

theorem describe?_of_find? {q : Query} {d : Descriptor} (h : catalog.find? order q = some d) :
    catalog.describe? (q.target.atVersion d.version) = some d := by
  unfold find? at h
  unfold describe?
  cases hq : q.requirement with
  | exact v =>
      rw [hq] at h
      refine find?_version (fun a b hab => ?_) h
      rw [hab]
  | prefer v =>
      rw [hq] at h
      refine find?_version (fun a b hab => ?_) h
      rw [hab]
  | range r =>
      rw [hq] at h
      obtain ⟨best, -, hbest⟩ := Option.bind_eq_some_iff.1 h
      refine find?_version (fun a b hab => ?_) hbest
      rw [hab]

/-- A version that is asked for by name is found if it is there. -/
theorem find?_eq_none {q : Query} {v : String} (hv : q.requirement.version? = some v)
    (h : catalog.find? order q = none) {d : Descriptor} (hd : d ∈ catalog.published q.target) :
    order.same d.version v = false := by
  unfold find? at h
  cases hq : q.requirement with
  | range r =>
      rw [hq] at hv
      cases hv
  | exact w =>
      rw [hq] at hv h
      obtain rfl := Option.some.inj hv
      exact Bool.eq_false_iff.2 (List.find?_eq_none.1 h d hd)
  | prefer w =>
      rw [hq] at hv h
      obtain rfl := Option.some.inj hv
      exact Bool.eq_false_iff.2 (List.find?_eq_none.1 h d hd)

/-- What is found is published, and the requirement accepts it. -/
theorem accepts_of_find? (horder : order.Oriented) {q : Query} {d : Descriptor}
    (h : catalog.find? order q = some d) :
    d ∈ catalog.published q.target ∧ q.requirement.accepts order d.version = true := by
  refine ⟨List.mem_of_find?_eq_some (describe?_of_find? h), ?_⟩
  unfold find? at h
  unfold Requirement.accepts
  cases hq : q.requirement with
  | exact v =>
      rw [hq] at h
      have hsame := List.find?_some h
      rwa [← horder.same_comm] at hsame
  | prefer v =>
      rw [hq] at h
      have hsame := List.find?_some h
      rwa [← horder.same_comm] at hsame
  | range r =>
      rw [hq] at h
      obtain ⟨best, hbest, hfind⟩ := Option.bind_eq_some_iff.1 h
      have hversion := List.find?_some hfind
      have hcontains := (List.mem_filter.1 (VersionOrder.mem_of_maxOf hbest)).2
      rwa [← beq_iff_eq.1 hversion] at hcontains

/-- Something is found if the requirement accepts anything published. -/
theorem accepts_eq_false_of_find? (horder : order.Oriented) {q : Query}
    (h : catalog.find? order q = none) {d : Descriptor} (hd : d ∈ catalog.published q.target) :
    q.requirement.accepts order d.version = false := by
  cases hv : q.requirement.version? with
  | some v =>
      have hsame := find?_eq_none hv h hd
      rw [← horder.same_comm] at hsame
      cases hq : q.requirement with
      | range r =>
          rw [hq] at hv
          cases hv
      | exact w =>
          rw [hq] at hv
          rw [← Option.some.inj hv] at hsame
          exact hsame
      | prefer w =>
          rw [hq] at hv
          rw [← Option.some.inj hv] at hsame
          exact hsame
  | none =>
      unfold find? at h
      cases hq : q.requirement with
      | exact w =>
          rw [hq] at hv
          cases hv
      | prefer w =>
          rw [hq] at hv
          cases hv
      | range r =>
          rw [hq] at h
          show r.contains order d.version = false
          by_contra hcontains
          have hmem : d.version ∈ (catalog.versions q.target).filter (r.contains order) :=
            List.mem_filter.2 ⟨List.mem_map_of_mem hd, by simpa using hcontains⟩
          cases hbest : order.maxOf ((catalog.versions q.target).filter (r.contains order)) with
          | none =>
              rw [VersionOrder.maxOf_eq_none_iff.1 hbest] at hmem
              cases hmem
          | some best =>
              obtain ⟨d', hd', rfl⟩ :=
                List.mem_map.1 (List.mem_filter.1 (VersionOrder.mem_of_maxOf hbest)).1
              have hnone : (catalog.published q.target).find? (·.version == d'.version) = none := by
                simpa [hbest] using h
              exact absurd (beq_self_eq_true d'.version) (List.find?_eq_none.1 hnone d' hd')

/-- What a catalog tells of a version: its first descriptor, or that nobody knows it. -/
theorem tells_provider {c : Coordinates} {f : Finding}
    (h : (catalog.provider order).Tells c f) :
    (∃ d, f = .found d ∧ catalog.describe? c = some d) ∨
      f = .missing .absent ∧
        ∀ d ∈ catalog.published c.id, order.same d.version c.version = false := by
  obtain ⟨q, hid, hanswer, rfl⟩ := h
  rw [Provider.answer?_eq_some_iff] at hanswer
  unfold provider at hanswer ⊢
  cases hfind : catalog.find? order q with
  | some d =>
      rw [hfind] at hanswer
      have hdescribe := describe?_of_find? hfind
      rw [Except.ok.inj hanswer, hid] at hdescribe
      exact Or.inl ⟨d, rfl, hdescribe⟩
  | none =>
      right
      refine ⟨rfl, fun d hd => ?_⟩
      rw [hfind] at hanswer
      unfold CandidateGraph.outcomeOf at hanswer
      dsimp only at hanswer
      cases hv : q.requirement.version? with
      | none =>
          rw [hv] at hanswer
          cases hanswer
      | some v =>
          rw [hv] at hanswer
          rw [← Except.ok.inj hanswer]
          rw [← hid] at hd
          exact find?_eq_none hv hfind hd

theorem mem_of_tells {c : Coordinates} {d : Descriptor}
    (h : (catalog.provider order).Tells c (.found d)) :
    d ∈ catalog.modules ∧ d.coordinates = c := by
  rcases tells_provider h with ⟨d', heq, hd'⟩ | ⟨hne, -⟩
  · obtain rfl := Finding.found.inj heq
    exact mem_of_describe? hd'
  · cases hne

theorem steady_provider (horder : order.Oriented) : (catalog.provider order).Steady := by
  have hpublished : ∀ {c d}, catalog.describe? c = some d →
      ¬∀ d ∈ catalog.published c.id, order.same d.version c.version = false := by
    intro c d hd hall
    have hsame := hall d (List.mem_of_find?_eq_some hd)
    rw [← (mem_of_describe? hd).2] at hsame
    exact absurd ((horder.same_self d.version).symm.trans hsame) (by decide)
  intro c f f' hf hf'
  rcases tells_provider hf with ⟨d, rfl, hd⟩ | ⟨rfl, hnone⟩
  · rcases tells_provider hf' with ⟨d', rfl, hd'⟩ | ⟨rfl, hnone⟩
    · rw [Option.some.inj (hd.symm.trans hd')]
    · exact absurd hnone (hpublished hd)
  · rcases tells_provider hf' with ⟨d', rfl, hd'⟩ | ⟨rfl, -⟩
    · exact absurd hnone (hpublished hd')
    · rfl

/-! ## Versions by their names -/

/-- No other published version of a module counts as this one. -/
def Names (catalog : Catalog) (order : VersionOrder) (id : ModuleId) (v : String) : Prop :=
  ∀ d ∈ catalog.published id, order.same d.version v = true → d.version = v

variable {id : ModuleId} {v : String} (hnames : catalog.Names order id v) {d : Descriptor}
  (hd : d ∈ catalog.published id) (hv : d.version = v)

include hnames hd hv

/-- A version that no other one counts as is what its name stands for. -/
theorem exists_find?_exact (horder : order.Oriented) :
    ∃ d, catalog.find? order ⟨id, .exact v⟩ = some d ∧ d.version = v := by
  have hsome : ((catalog.published id).find? fun d => order.same d.version v).isSome = true := by
    refine List.find?_isSome.2 ⟨d, hd, ?_⟩
    rw [hv]
    exact horder.same_self v
  obtain ⟨d', hfind⟩ := Option.isSome_iff_exists.1 hsome
  have hsame := List.find?_some hfind
  exact ⟨d', hfind, hnames d' (List.mem_of_find?_eq_some hfind) hsame⟩

/-- No query comes to another name of such a version. -/
theorem eq_of_answer?_same (horder : order.Oriented) {q : Query} (hq : q.target = id) {w : String}
    (hw : (catalog.provider order).answer? q = some w) (hsame : order.same w v = true) : w = v := by
  rw [Provider.answer?_eq_some_iff] at hw
  unfold provider at hw
  cases hfind : catalog.find? order q with
  | some d' =>
      rw [hfind] at hw
      obtain rfl := Except.ok.inj hw
      have hmem : d' ∈ catalog.published q.target :=
        List.mem_of_find?_eq_some (describe?_of_find? hfind)
      exact hnames d' (hq ▸ hmem) hsame
  | none =>
      rw [hfind] at hw
      unfold CandidateGraph.outcomeOf at hw
      dsimp only at hw
      cases hasked : q.requirement.version? with
      | none =>
          rw [hasked] at hw
          cases hw
      | some w' =>
          rw [hasked] at hw
          obtain rfl := Except.ok.inj hw
          have hnot := find?_eq_none hasked hfind (hq ▸ hd)
          rw [hv, horder.same_comm, hsame] at hnot
          cases hnot

end Catalog

end Lockstep
