import Lockstep.Proofs.Choosing
import Mathlib.Data.List.Flatten

/-!
# Settled rounds

The last round has chosen what it was guided by. If it has no errors, every
module that an edge leads to is guided to its selected version, whatever else
the guide holds; so what is live is exactly what is selected (`mem_nodes_iff`).
-/

namespace Lockstep

namespace Rounds

variable {order : VersionOrder} {g : CandidateGraph} {constraints : SortedSet Constraint}
  {r : Rounds} {live : Live} {round : Round}

/-- The last round of some rounds: it chose what it was guided by, learned nothing, and has no
errors. -/
structure Settles (order : VersionOrder) (g : CandidateGraph) (constraints : SortedSet Constraint)
    (r : Rounds) (live : Live) (round : Round) : Prop where
  walked : walk g r.guide = some live
  chosen : round = Round.ofDemands order g (r.gathered g constraints live)
  guided : round.guide = r.guide.filter fun id _ => (r.gathered g constraints live).contains id
  learned : r.learns (.gather g live r.guide constraints) = false
  no_errors : round.errors = []

theorem settles_of_step (h : r.step order g constraints = some (.settled live round))
    (herrors : round.errors = []) : r.Settles order g constraints live round := by
  obtain ⟨live', hwalk⟩ := Option.isSome_iff_exists.1 (walk_isSome g r.guide)
  rw [step_eq order g constraints r hwalk] at h
  split at h
  · next hcond =>
    obtain ⟨rfl, rfl⟩ := Progress.settled.inj (Option.some.inj h)
    exact ⟨hwalk, rfl, hcond.1, hcond.2, herrors⟩
  · cases h

/-- The live graph of the last round is that of a walk. -/
theorem exists_walk {rounds : Nat} (hrun : r.run order g constraints rounds = some (live, round)) :
    ∃ guide, walk g guide = some live := by
  obtain ⟨last, -, hstep⟩ :=
    run_induction (P := fun _ => True) (fun _ _ _ _ => trivial) trivial hrun
  obtain ⟨live', hwalk⟩ := Option.isSome_iff_exists.1 (walk_isSome g last.guide)
  rw [step_eq order g constraints last hwalk] at hstep
  split at hstep
  · obtain ⟨rfl, -⟩ := Progress.settled.inj (Option.some.inj hstep)
    exact ⟨last.guide, hwalk⟩
  · cases hstep

/-- Rounds without errors in the end have a last one that settles them. -/
theorem exists_settles {rounds : Nat}
    (hrun : Rounds.run order g constraints rounds {} = some (live, round))
    (herrors : round.errors = []) :
    ∃ r, Reached order g constraints r ∧ r.Settles order g constraints live round := by
  obtain ⟨r, hr, hstep⟩ := run_induction (fun _ _ h hs => Reached.again h hs) Reached.first hrun
  exact ⟨r, hr, settles_of_step hstep herrors⟩

namespace Settles

variable (h : r.Settles order g constraints live round)

include h

/-- A module that an edge leads to is selected, with metadata, at the version that it is guided
to. -/
theorem exists_selected {id : ModuleId} {es : List EdgeId}
    (hes : live.incoming.get? id = some es) : ∃ s, round.selections.get? id = some s ∧
      r.guide.get? id = some s.version ∧ ∃ d, g.descriptor? (id.atVersion s.version) = some d := by
  have hcontains := contains_gathered r g constraints live id
  rw [SortedMap.contains_iff.2 ⟨es, hes⟩] at hcontains
  obtain ⟨set, hset⟩ := SortedMap.contains_iff.1 hcontains
  have herrors := h.no_errors
  rw [h.chosen] at herrors
  obtain ⟨s, hs, -, -, hd⟩ := Round.selected_of_no_errors herrors hset
  rw [← h.chosen] at hs
  refine ⟨s, hs, ?_, hd⟩
  have hguide := Round.get?_guide round id
  rw [h.guided, SortedMap.get?_filter, hs, Option.map_some] at hguide
  exact (Option.filter_eq_some_iff.1 hguide).1

/-- Some edge leads to every module selected. -/
theorem exists_incoming {id : ModuleId} {s : Selection}
    (hs : round.selections.get? id = some s) : ∃ es, live.incoming.get? id = some es := by
  rw [h.chosen] at hs
  obtain ⟨set, hset, -⟩ := Round.exists_demands_of_selected hs
  have hcontains := contains_gathered r g constraints live id
  rw [SortedMap.contains_iff.2 ⟨set, hset⟩] at hcontains
  exact SortedMap.contains_iff.1 hcontains.symm

/-- An edge that is followed leads to the selected version of its target. -/
theorem version?_eq {e : EdgeId} {edge : Edge} (hedge : g.edge? e = some edge)
    (hfollows : Live.Follows g live e edge) : ∃ s, round.selections.get? edge.target = some s ∧
      edge.version? r.guide = some s.version := by
  obtain ⟨es, hes, -⟩ := Live.exists_get?_incoming h.walked hedge hfollows
  obtain ⟨s, hs, hguide, -⟩ := h.exists_selected hes
  refine ⟨s, hs, ?_⟩
  unfold Edge.version?
  rw [hguide]
  rfl

/-- What is live is what is selected. -/
theorem mem_nodes_iff {c : Coordinates} : c ∈ live.nodes ↔
    ∃ s, round.selections.get? c.id = some s ∧ s.version = c.version := by
  constructor
  · intro hc
    obtain ⟨e, edge, hedge, htarget, hversion, hfollows⟩ :=
      Live.exists_incoming_of_mem_nodes h.walked hc
    obtain ⟨s, hs, hversion'⟩ := h.version?_eq hedge hfollows
    rw [hversion] at hversion'
    rw [htarget] at hs
    exact ⟨s, hs, (Option.some.inj hversion').symm⟩
  · rintro ⟨s, hs, hversion⟩
    obtain ⟨es, hes⟩ := h.exists_incoming hs
    obtain ⟨e, -, edge, hedge, htarget, hfollows⟩ := Live.exists_mem_incoming h.walked hes
    obtain ⟨s', hs', hversion'⟩ := h.version?_eq hedge hfollows
    rw [htarget, hs] at hs'
    obtain rfl := Option.some.inj hs'
    obtain ⟨inherited, set, -, -, hnode⟩ := hfollows.arrives h.walked hedge
    have hc := hnode _ hversion'
    rw [htarget, hversion] at hc
    exact hc

end Settles

end Rounds

/-! ## Resolutions -/

/-- The rounds over a candidate graph come to a resolution, however many it takes. -/
def CandidateGraph.ResolvesTo (g : CandidateGraph) (order : VersionOrder)
    (constraints : SortedSet Constraint) (res : Resolution) : Prop :=
  ∃ rounds live round, Rounds.run order g constraints rounds {} = some (live, round) ∧
    res = Resolution.ofRound order g live round

theorem CandidateGraph.resolvesTo_of_resolve {g : CandidateGraph} {order : VersionOrder}
    {constraints : SortedSet Constraint} {res : Resolution}
    (h : resolve order g constraints = some res) : g.ResolvesTo order constraints res := by
  obtain ⟨⟨live, round⟩, hrun, rfl⟩ := Option.map_eq_some_iff.1 h
  exact ⟨_, live, round, hrun, rfl⟩

/-! ## The modules that edges reach -/

/-- A module is reached from the root if an edge of the root leads to it, or an edge of the selected
version of a module reached before that the exclusions in force let through. -/
inductive Resolution.Reaches (g : CandidateGraph) (res : Resolution) : ModuleId → Prop
  | root {e : EdgeId} {edge : Edge} : e ∈ g.rootEdges → g.edge? e = some edge →
    Reaches g res edge.target
  | onward {id : ModuleId} {v : String} {e : EdgeId} {edge : Edge} : Reaches g res id →
    res.versionOf? id = some v → e ∈ g.outgoing (id.atVersion v) → g.edge? e = some edge →
    (Live.exclusionsOf res.live.exclusions (id.atVersion v)).exclude edge.target = false →
    Reaches g res edge.target

namespace Rounds.Settles

variable {order : VersionOrder} {g : CandidateGraph} {constraints : SortedSet Constraint}
  {r : Rounds} {live : Live} {round : Round} (h : r.Settles order g constraints live round)

include h

theorem mem_nodes_iff_versionOf? {c : Coordinates} : c ∈ live.nodes ↔
    (Resolution.ofRound order g live round).versionOf? c.id = some c.version := by
  rw [h.mem_nodes_iff]
  exact Option.map_eq_some_iff.symm

theorem reaches_iff {id : ModuleId} :
    (Resolution.ofRound order g live round).Reaches g id ↔
      ∃ v, (Resolution.ofRound order g live round).versionOf? id = some v := by
  constructor
  · intro hreaches
    have hfollows : ∃ e edge, g.edge? e = some edge ∧ edge.target = id ∧
        Live.Follows g live e edge := by
      cases hreaches with
      | root he hedge => exact ⟨_, _, hedge, rfl, Or.inl he⟩
      | onward _ hv he hedge hex =>
          exact ⟨_, _, hedge, rfl, Or.inr ⟨_, h.mem_nodes_iff_versionOf?.2 hv, he, hex⟩⟩
    obtain ⟨e, edge, hedge, rfl, hfollows⟩ := hfollows
    obtain ⟨s, hs, -⟩ := h.version?_eq hedge hfollows
    exact ⟨s.version, Option.map_eq_some_iff.2 ⟨s, hs, rfl⟩⟩
  · rintro ⟨v, hv⟩
    have hlive : id.atVersion v ∈ live.nodes := h.mem_nodes_iff_versionOf?.2 hv
    refine Live.nodes_induction h.walked (P := fun c =>
      (Resolution.ofRound order g live round).Reaches g c.id) ?_ _ hlive
    intro e edge hedge hfrom w _
    rcases hfrom with he | ⟨c, hc, hreaches, he, hex⟩
    · exact .root he hedge
    · exact .onward hreaches (h.mem_nodes_iff_versionOf?.1 hc) he hedge hex

end Rounds.Settles

end Lockstep
