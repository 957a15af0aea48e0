import Lockstep.Proofs.Caching
import Lockstep.Proofs.Counting
import Mathlib.Logic.Relation

/-!
# The lookups of a level, all at once

The lookups of a level are tasks that run side by side, as many at a time as
there are permits. Each one asks the cache, if need be the provider, and then
tells the cache (`Flight.Moves`). Between the first and the last of these steps
the others may do theirs, and answers come in in any order. The books of the
cache (`Cache.Balanced`) stay right on every way through (`Flight.Sound.moves`),
because no two tasks of a level have the same query, and no way is a dead end
(`Flight.exists_lands`).
-/

namespace Lockstep

/-- The answers that a lookup gives to one query after the other, and the state that this leaves. -/
def Lookup.answers {σ : Type} (lookup : Lookup σ) : List Query → σ → List (Query × Answer) × σ
  | [], s => ([], s)
  | q :: rest, s =>
    let (a, s) := (lookup q).run s
    let (joined, s) := lookup.answers rest s
    ((q, a) :: joined, s)

theorem Lookup.answers_cons {σ : Type} (lookup : Lookup σ) (q : Query) (rest : List Query) (s : σ) :
    lookup.answers (q :: rest) s =
      ((q, ((lookup q).run s).1) :: (lookup.answers rest ((lookup q).run s).2).1,
        (lookup.answers rest ((lookup q).run s).2).2) :=
  rfl

/-! ## The books of a cache -/

namespace Cache

variable {p : Provider} {c c' : Cache} {q : Query} {a : Answer}
  {asked looked asking answered : List Query}

/-- There is an answer at hand. -/
def Knows (c : Cache) (q : Query) : Prop :=
  ∃ a, c.answers.get? q = some a

theorem check_eq_some_iff : c.check q = (some a, c') ↔
    c.answers.get? q = some a ∧ c' = { c with hits := c.hits + 1 } := by
  unfold check
  cases c.answers.get? q with
  | none => simp
  | some b => simp [eq_comm]

theorem check_eq_none_iff : c.check q = (none, c') ↔
    ¬c.Knows q ∧ c' = { c with misses := c.misses + 1 } := by
  unfold check Knows
  cases c.answers.get? q with
  | none => simp [eq_comm]
  | some b => simp

theorem knows_store {q' : Query} : (c.store q a).Knows q' ↔ q' = q ∨ c.Knows q' := by
  show (∃ b, (c.answers.insert q a).get? q' = some b) ↔ _
  rw [SortedMap.get?_insert]
  by_cases h : q' = q
  · simp [h]
  · simp [h, Knows]

theorem Faithful.store (h : c.Faithful p) : (c.store q (p q)).Faithful p := by
  intro q' b hb
  change (c.answers.insert q (p q)).get? q' = some b at hb
  rw [SortedMap.get?_insert] at hb
  split at hb
  · next heq => rw [heq, Option.some.inj hb]
  · exact h q' b hb

/-- The books of a cache, when these queries have been looked up and passed on to the provider, the
provider has not been asked for some of them yet, and of some answers the cache has not heard. -/
structure Balanced (p : Provider) (asked looked asking answered : List Query) (c : Cache) :
    Prop where
  faithful : c.Faithful p
  once : asked.Nodup
  heard : ∀ q, q ∈ asked ↔ c.Knows q ∨ q ∈ answered
  known : ∀ q, q ∈ looked ↔ q ∈ asked ∨ q ∈ asking
  fresh : ∀ q ∈ asking, q ∉ asked
  misses : c.misses = asked.length + asking.length
  lookups : c.hits + c.misses = looked.length

theorem balanced_empty (p : Provider) : Balanced p [] [] [] [] {} where
  faithful := fun _ _ h => by simp at h
  once := List.nodup_nil
  heard := fun q => by simp [Knows]
  known := fun q => by simp
  fresh := fun q h => by simp at h
  misses := rfl
  lookups := rfl

namespace Balanced

theorem congr (h : Balanced p asked looked asking answered c) {asking' answered' : List Query}
    (hasking : asking.Perm asking') (hanswered : answered.Perm answered') :
    Balanced p asked looked asking' answered' c where
  faithful := h.faithful
  once := h.once
  heard := fun q => by rw [h.heard, hanswered.mem_iff]
  known := fun q => by rw [h.known, hasking.mem_iff]
  fresh := fun q hq => h.fresh q (hasking.mem_iff.2 hq)
  misses := by rw [h.misses, hasking.length_eq]
  lookups := h.lookups

theorem hit (h : Balanced p asked looked asking answered c) (hcheck : c.check q = (some a, c')) :
    Balanced p asked (looked ++ [q]) asking answered c' := by
  obtain ⟨hget, rfl⟩ := check_eq_some_iff.1 hcheck
  have hasked : q ∈ asked := (h.heard q).2 (Or.inl ⟨a, hget⟩)
  constructor
  case faithful => exact h.faithful
  case once => exact h.once
  case heard => exact h.heard
  case fresh => exact h.fresh
  case misses => exact h.misses
  case known =>
    intro q'
    rw [List.mem_append, List.mem_singleton, h.known]
    constructor
    · rintro (hq' | rfl)
      · exact hq'
      · exact Or.inl hasked
    · exact Or.inl
  case lookups =>
    have hlookups := h.lookups
    simp only [List.length_append, List.length_singleton]
    omega

/-- A query that the cache does not know has not been passed on, unless its answer is on the way. -/
theorem miss (h : Balanced p asked looked asking answered c) (hcheck : c.check q = (none, c'))
    (hq : q ∉ answered) : Balanced p asked (looked ++ [q]) (q :: asking) answered c' := by
  obtain ⟨hunknown, rfl⟩ := check_eq_none_iff.1 hcheck
  have hasked : q ∉ asked := fun hmem => ((h.heard q).1 hmem).elim hunknown hq
  constructor
  case faithful => exact h.faithful
  case once => exact h.once
  case heard => exact h.heard
  case known =>
    intro q'
    rw [List.mem_append, List.mem_singleton, h.known, List.mem_cons]
    tauto
  case fresh =>
    intro q' hq'
    rcases List.mem_cons.1 hq' with rfl | hq'
    · exact hasked
    · exact h.fresh q' hq'
  case misses =>
    have hmisses := h.misses
    simp only [List.length_cons]
    omega
  case lookups =>
    have hlookups := h.lookups
    simp only [List.length_append, List.length_singleton]
    omega

theorem fetch (h : Balanced p asked looked (q :: asking) answered c) (hq : q ∉ asking) :
    Balanced p (asked ++ [q]) looked asking (q :: answered) c := by
  have hasked : q ∉ asked := h.fresh q List.mem_cons_self
  constructor
  case faithful => exact h.faithful
  case once =>
    rw [List.nodup_append_comm]
    exact List.nodup_cons.2 ⟨hasked, h.once⟩
  case heard =>
    intro q'
    rw [List.mem_append, List.mem_singleton, h.heard, List.mem_cons]
    tauto
  case known =>
    intro q'
    rw [h.known, List.mem_cons, List.mem_append, List.mem_singleton]
    tauto
  case fresh =>
    intro q' hq'
    rw [List.mem_append, List.mem_singleton]
    rintro (hmem | rfl)
    · exact h.fresh q' (List.mem_cons_of_mem q hq') hmem
    · exact hq hq'
  case misses =>
    have hmisses := h.misses
    simp only [List.length_append, List.length_cons, List.length_nil] at hmisses ⊢
    omega
  case lookups => exact h.lookups

theorem store (h : Balanced p asked looked asking (q :: answered) c) :
    Balanced p asked looked asking answered (c.store q (p q)) where
  faithful := h.faithful.store
  once := h.once
  heard := fun q' => by
    rw [h.heard, knows_store, List.mem_cons]
    tauto
  known := h.known
  fresh := h.fresh
  misses := h.misses
  lookups := h.lookups

end Balanced

end Cache

/-! ## Tasks -/

/-- How far the lookup of a query has come. -/
inductive LookupStage where
  | waiting
  /-- The cache has no answer, and the provider is about to be asked. -/
  | asking
  /-- The provider has answered, and the cache is about to be told. -/
  | answered (a : Answer)
  | done (a : Answer)

namespace LookupStage

@[simp] def isWaiting : LookupStage → Bool
  | waiting => true
  | _ => false

@[simp] def isAsking : LookupStage → Bool
  | asking => true
  | _ => false

@[simp] def isAnswered : LookupStage → Bool
  | answered _ => true
  | _ => false

/-- The stages in which a task keeps its permit. -/
def busy (s : LookupStage) : Bool :=
  s.isAsking || s.isAnswered

@[simp] def answer? : LookupStage → Option Answer
  | answered a => some a
  | done a => some a
  | _ => none

/-- The steps that are left. -/
def work : LookupStage → Nat
  | waiting => 4
  | asking => 3
  | answered _ => 2
  | done _ => 1

end LookupStage

/-- The lookups of a level under way. -/
structure Flight where
  cache : Cache
  /-- What the provider has been asked, one query after the other. -/
  asked : List Query
  /-- The lookups that have begun, in the order in which they did. -/
  begun : List Query := []
  tasks : List (Query × LookupStage)
  /-- The answers that have come in, in the order in which they did. -/
  joined : List (Query × Answer) := []

namespace Flight

/-- A level begins: nothing has been looked up for it. -/
def launch (keys : List Query) (cache : Cache) (asked : List Query) : Flight :=
  { cache, asked, tasks := keys.map (·, .waiting) }

/-- The queries of the tasks that are at certain stages. -/
def queriesAt (at? : LookupStage → Bool) (tasks : List (Query × LookupStage)) : List Query :=
  (tasks.filter fun t => at? t.2).map Prod.fst

/-- There is a permit for one task more. -/
def Free (permits : Nat) (tasks : List (Query × LookupStage)) : Prop :=
  (queriesAt LookupStage.busy tasks).length < max permits 1

/-- One step of one task, whichever it is. -/
inductive Moves (p : Provider) (permits : Nat) : Flight → Flight → Prop
  | hit {f : Flight} {q : Query} {rest : List (Query × LookupStage)} {a : Answer} {c : Cache}
      (htask : f.tasks.Perm ((q, .waiting) :: rest)) (hfree : Free permits rest)
      (hcheck : f.cache.check q = (some a, c)) :
      Moves p permits f
        { f with cache := c, begun := f.begun ++ [q], tasks := (q, .done a) :: rest }
  | miss {f : Flight} {q : Query} {rest : List (Query × LookupStage)} {c : Cache}
      (htask : f.tasks.Perm ((q, .waiting) :: rest)) (hfree : Free permits rest)
      (hcheck : f.cache.check q = (none, c)) :
      Moves p permits f
        { f with cache := c, begun := f.begun ++ [q], tasks := (q, .asking) :: rest }
  | fetch {f : Flight} {q : Query} {rest : List (Query × LookupStage)}
      (htask : f.tasks.Perm ((q, .asking) :: rest)) :
      Moves p permits f { f with asked := f.asked ++ [q], tasks := (q, .answered (p q)) :: rest }
  | store {f : Flight} {q : Query} {rest : List (Query × LookupStage)} {a : Answer}
      (htask : f.tasks.Perm ((q, .answered a) :: rest)) :
      Moves p permits f { f with cache := f.cache.store q a, tasks := (q, .done a) :: rest }
  | join {f : Flight} {q : Query} {rest : List (Query × LookupStage)} {a : Answer}
      (htask : f.tasks.Perm ((q, .done a) :: rest)) :
      Moves p permits f { f with tasks := rest, joined := f.joined ++ [(q, a)] }

/-- A level ends: each of its answers has come in. -/
def Lands (p : Provider) (permits : Nat) (f : Flight) (cache : Cache) (asked begun : List Query)
    (joined : List (Query × Answer)) : Prop :=
  Relation.ReflTransGen (Moves p permits) f ⟨cache, asked, begun, [], joined⟩

variable {p : Provider} {permits : Nat} {f f' : Flight} {q : Query} {s : LookupStage}
  {tasks rest : List (Query × LookupStage)} {keys before : List Query}

/-! ## Every way lands -/

/-- The steps that are left to all tasks. -/
def work (tasks : List (Query × LookupStage)) : Nat :=
  (tasks.map fun t => t.2.work).sum

theorem work_eq_of_perm (h : tasks.Perm ((q, s) :: rest)) : work tasks = s.work + work rest := by
  unfold work
  rw [(h.map _).sum_eq, List.map_cons, List.sum_cons]

/-- Every step leaves less to do, so no level goes on forever. -/
theorem work_lt_of_moves (h : Moves p permits f f') : work f'.tasks < work f.tasks := by
  cases h with
  | hit htask | miss htask | fetch htask | store htask | join htask =>
      rw [work_eq_of_perm htask]
      simp [work, LookupStage.work]

theorem exists_perm_of_mem (h : (q, s) ∈ tasks) : ∃ rest, tasks.Perm ((q, s) :: rest) := by
  obtain ⟨l, r, rfl⟩ := List.append_of_mem h
  exact ⟨l ++ r, List.perm_middle⟩

theorem free_of_waiting (permits : Nat) (h : ∀ t ∈ rest, t.2 = .waiting) : Free permits rest := by
  have hnone : rest.filter (fun t => t.2.busy) = [] := by
    rw [List.filter_eq_nil_iff]
    intro t ht
    simp [h t ht, LookupStage.busy, LookupStage.isAsking, LookupStage.isAnswered]
  unfold Free queriesAt
  rw [hnone]
  exact Nat.lt_of_lt_of_le Nat.one_pos (Nat.le_max_right permits 1)

/-- As long as there are tasks, one of them can go on: one that has begun, or else any other, since
no permit is taken. -/
theorem exists_moves (p : Provider) (permits : Nat) (h : f.tasks ≠ []) :
    ∃ f', Moves p permits f f' := by
  by_cases hwaiting : ∀ t ∈ f.tasks, t.2 = .waiting
  · obtain ⟨⟨q, s⟩, hmem⟩ := List.exists_mem_of_ne_nil _ h
    obtain rfl : s = .waiting := hwaiting _ hmem
    obtain ⟨rest, htask⟩ := exists_perm_of_mem hmem
    have hfree : Free permits rest := free_of_waiting permits fun t ht =>
      hwaiting t (htask.mem_iff.2 (List.mem_cons_of_mem _ ht))
    cases hcheck : f.cache.check q with
    | mk a? c =>
        cases a? with
        | some a => exact ⟨_, .hit htask hfree hcheck⟩
        | none => exact ⟨_, .miss htask hfree hcheck⟩
  · simp only [not_forall] at hwaiting
    obtain ⟨⟨q, s⟩, hmem, hs⟩ := hwaiting
    obtain ⟨rest, htask⟩ := exists_perm_of_mem hmem
    cases s with
    | waiting => exact absurd rfl hs
    | asking => exact ⟨_, .fetch htask⟩
    | answered a => exact ⟨_, .store htask⟩
    | done a => exact ⟨_, .join htask⟩

/-- No level is ever stuck: it can be brought to its end from wherever it is. -/
theorem exists_lands (p : Provider) (permits : Nat) (f : Flight) :
    ∃ cache asked begun joined, f.Lands p permits cache asked begun joined := by
  induction hn : work f.tasks using Nat.strong_induction_on generalizing f with
  | _ n ih =>
      by_cases hdone : f.tasks = []
      · obtain ⟨cache, asked, begun, tasks, joined⟩ := f
        obtain rfl : tasks = [] := hdone
        exact ⟨cache, asked, begun, joined, .refl⟩
      · obtain ⟨f', hmoves⟩ := exists_moves p permits hdone
        obtain ⟨cache, asked, begun, joined, hlands⟩ :=
          ih (work f'.tasks) (hn ▸ work_lt_of_moves hmoves) f' rfl
        exact ⟨cache, asked, begun, joined, hlands.head hmoves⟩

/-! ## One after the other -/

/-- The lookups of a cache, made one after the other, are a way through the level. -/
theorem exists_lands_answers (p : Provider) (permits : Nat) (keys : List Query) (cache : Cache)
    (asked begun : List Query) (joined : List (Query × Answer)) :
    ∃ asked', Lands p permits ⟨cache, asked, begun, keys.map (·, .waiting), joined⟩
      ((Cache.lookup p).answers keys cache).2 asked' (begun ++ keys)
      (joined ++ ((Cache.lookup p).answers keys cache).1) := by
  induction keys generalizing cache asked begun joined with
  | nil =>
      refine ⟨asked, ?_⟩
      rw [List.append_nil, Lookup.answers, List.append_nil]
      exact .refl
  | cons q rest ih =>
      have hfree : Free permits (rest.map (·, LookupStage.waiting)) :=
        free_of_waiting permits (by simp)
      rw [Lookup.answers_cons, List.append_cons begun, List.append_cons joined]
      cases hcheck : cache.check q with
      | mk a? c =>
          cases a? with
          | some a =>
              have hlookup : (Cache.lookup p q).run cache = (a, c) := by
                show Cache.lookup p q cache = _
                simp [Cache.lookup, hcheck]
              rw [hlookup]
              obtain ⟨asked', hrest⟩ := ih c asked (begun ++ [q]) (joined ++ [(q, a)])
              exact ⟨asked', .head (.hit (.refl _) hfree hcheck) (.head (.join (.refl _)) hrest)⟩
          | none =>
              have hlookup : (Cache.lookup p q).run cache = (p q, c.store q (p q)) := by
                show Cache.lookup p q cache = _
                simp [Cache.lookup, hcheck]
              rw [hlookup]
              obtain ⟨asked', hrest⟩ := ih (c.store q (p q)) (asked ++ [q]) (begun ++ [q])
                (joined ++ [(q, p q)])
              exact ⟨asked', .head (.miss (.refl _) hfree hcheck) (.head (.fetch (.refl _))
                (.head (.store (.refl _)) (.head (.join (.refl _)) hrest)))⟩

/-! ## What holds on every way -/

@[simp] theorem queriesAt_cons (at? : LookupStage → Bool) (q : Query) (s : LookupStage)
    (rest : List (Query × LookupStage)) : queriesAt at? ((q, s) :: rest) =
      if at? s then q :: queriesAt at? rest else queriesAt at? rest := by
  unfold queriesAt
  rw [List.filter_cons]
  dsimp only
  split <;> rfl

theorem queriesAt_subset (at? : LookupStage → Bool) (tasks : List (Query × LookupStage)) :
    ∀ q ∈ queriesAt at? tasks, q ∈ tasks.map Prod.fst := by
  intro q hq
  obtain ⟨t, ht, rfl⟩ := List.mem_map.1 hq
  exact List.mem_map_of_mem (List.mem_filter.1 ht).1

theorem queriesAt_perm (at? : LookupStage → Bool) (h : tasks.Perm rest) :
    (queriesAt at? tasks).Perm (queriesAt at? rest) :=
  (h.filter _).map _

/-- A level for these queries, with others looked up before. -/
structure Sound (p : Provider) (keys before : List Query) (f : Flight) : Prop where
  balanced : f.cache.Balanced p f.asked (before ++ f.begun) (queriesAt LookupStage.isAsking f.tasks)
    (queriesAt LookupStage.isAnswered f.tasks)
  queries : (f.joined.map Prod.fst ++ f.tasks.map Prod.fst).Perm keys
  begun : (f.begun ++ queriesAt LookupStage.isWaiting f.tasks).Perm keys
  joined : ∀ e ∈ f.joined, e.2 = p e.1
  answers : ∀ t ∈ f.tasks, ∀ a ∈ t.2.answer?, a = p t.1

namespace Sound

theorem congr (h : Sound p keys before f) (htasks : f.tasks.Perm tasks) :
    Sound p keys before { f with tasks } where
  balanced := h.balanced.congr (queriesAt_perm _ htasks) (queriesAt_perm _ htasks)
  queries := ((htasks.map Prod.fst).symm.append_left _).trans h.queries
  begun := ((queriesAt_perm _ htasks).symm.append_left _).trans h.begun
  joined := h.joined
  answers := fun t ht => h.answers t (htasks.mem_iff.2 ht)

/-- The other tasks have other queries. -/
theorem not_mem_rest (h : Sound p keys before f) (hkeys : keys.Nodup)
    (htask : f.tasks.Perm ((q, s) :: rest)) : q ∉ rest.map Prod.fst := by
  have hnodup := (h.congr htask).queries.nodup_iff.2 hkeys
  exact (List.nodup_cons.1 (List.nodup_append.1 hnodup).2.1).1

/-- The answer that a task has got is that of the provider. -/
theorem answer_eq (h : Sound p keys before f) (htask : f.tasks.Perm ((q, s) :: rest)) {a : Answer}
    (ha : a ∈ s.answer?) : a = p q :=
  h.answers (q, s) (htask.mem_iff.2 List.mem_cons_self) a ha

/-- A task goes on to another stage, and the others stay where they are. -/
theorem goes_on (h : Sound p keys before f) (htask : f.tasks.Perm ((q, s) :: rest)) {cache : Cache}
    {asked begun : List Query} {s' : LookupStage}
    (hbalanced : cache.Balanced p asked (before ++ begun)
      (queriesAt LookupStage.isAsking ((q, s') :: rest))
      (queriesAt LookupStage.isAnswered ((q, s') :: rest)))
    (hbegun : (begun ++ queriesAt LookupStage.isWaiting ((q, s') :: rest)).Perm
      (f.begun ++ queriesAt LookupStage.isWaiting ((q, s) :: rest)))
    (hanswer : ∀ a ∈ s'.answer?, a = p q) :
    Sound p keys before { f with cache, asked, begun, tasks := (q, s') :: rest } where
  balanced := hbalanced
  queries := (h.congr htask).queries
  begun := hbegun.trans (h.congr htask).begun
  joined := h.joined
  answers := by
    have hrest := (h.congr htask).answers
    exact List.forall_mem_cons.2 ⟨hanswer, (List.forall_mem_cons.1 hrest).2⟩

/-- Whichever task goes on, the books stay right. -/
theorem moves (h : Sound p keys before f) (hkeys : keys.Nodup) (hmoves : Moves p permits f f') :
    Sound p keys before f' := by
  cases hmoves with
  | @hit q rest a c htask _ hcheck =>
      have hbalanced : f.cache.Balanced p f.asked (before ++ f.begun)
          (queriesAt LookupStage.isAsking rest) (queriesAt LookupStage.isAnswered rest) := by
        simpa using (h.congr htask).balanced
      have hanswer : a = p q :=
        hbalanced.faithful q a (Cache.check_eq_some_iff.1 hcheck).1
      apply h.goes_on htask
      · simpa using hbalanced.hit hcheck
      · simp
      · simp [hanswer]
  | @miss q rest c htask _ hcheck =>
      have hbalanced : f.cache.Balanced p f.asked (before ++ f.begun)
          (queriesAt LookupStage.isAsking rest) (queriesAt LookupStage.isAnswered rest) := by
        simpa using (h.congr htask).balanced
      -- An answer on the way would be that of another task with this query.
      have hothers : q ∉ queriesAt LookupStage.isAnswered rest :=
        fun hq => h.not_mem_rest hkeys htask (queriesAt_subset _ _ _ hq)
      apply h.goes_on htask
      · simpa using hbalanced.miss hcheck hothers
      · simp
      · simp
  | @fetch q rest htask =>
      have hbalanced : f.cache.Balanced p f.asked (before ++ f.begun)
          (q :: queriesAt LookupStage.isAsking rest) (queriesAt LookupStage.isAnswered rest) := by
        simpa using (h.congr htask).balanced
      have hothers : q ∉ queriesAt LookupStage.isAsking rest :=
        fun hq => h.not_mem_rest hkeys htask (queriesAt_subset _ _ _ hq)
      apply h.goes_on htask
      · simpa using hbalanced.fetch hothers
      · simp
      · simp
  | @store q rest a htask =>
      have hbalanced : f.cache.Balanced p f.asked (before ++ f.begun)
          (queriesAt LookupStage.isAsking rest) (q :: queriesAt LookupStage.isAnswered rest) := by
        simpa using (h.congr htask).balanced
      obtain rfl : a = p q := h.answer_eq htask rfl
      apply h.goes_on htask
      · simpa using hbalanced.store
      · simp
      · simp
  | @join q rest a htask =>
      obtain rfl : a = p q := h.answer_eq htask rfl
      obtain ⟨hbalanced, hqueries, hbegun, hjoined, hanswers⟩ := h.congr htask
      constructor
      case balanced => simpa using hbalanced
      case queries => simpa using hqueries
      case begun => simpa using hbegun
      case joined =>
        intro e he
        rcases List.mem_append.1 he with he | he
        · exact hjoined e he
        · rw [List.mem_singleton.1 he]
      case answers => exact (List.forall_mem_cons.1 hanswers).2

/-- Whichever tasks go on, and however often. -/
theorem reaches (h : Sound p keys before f) (hkeys : keys.Nodup)
    (hreaches : Relation.ReflTransGen (Moves p permits) f f') : Sound p keys before f' := by
  induction hreaches with
  | refl => exact h
  | tail _ hmoves ih => exact ih.moves hkeys hmoves

end Sound

theorem sound_launch {cache : Cache} {asked : List Query}
    (h : cache.Balanced p asked before [] []) (keys : List Query) :
    Sound p keys before (launch keys cache asked) := by
  have hnone : ∀ at? : LookupStage → Bool, at? .waiting = false →
      queriesAt at? (keys.map (·, .waiting)) = [] := by
    intro at? hat
    simp [queriesAt, List.filter_map, Function.comp_def, hat]
  constructor
  case balanced =>
    simpa [launch, hnone LookupStage.isAsking rfl, hnone LookupStage.isAnswered rfl] using h
  case queries => simp [launch, Function.comp_def]
  case begun => simp [launch, queriesAt, List.filter_map, Function.comp_def]
  case joined => simp [launch]
  case answers => simp [launch]

/-- At the end of a level every query has been looked up once and every answer is that of the
provider; the cache and the provider know of the same queries as before, and of these. -/
theorem balanced_of_lands {cache cache' : Cache} {asked asked' begun : List Query}
    {joined : List (Query × Answer)} (h : cache.Balanced p asked before [] [])
    (hkeys : keys.Nodup)
    (hlands : (launch keys cache asked).Lands p permits cache' asked' begun joined) :
    cache'.Balanced p asked' (before ++ begun) [] [] ∧ begun.Perm keys ∧
      joined.Perm (keys.map fun q => (q, p q)) := by
  have hsound := (sound_launch h keys).reaches hkeys hlands
  have hjoined : (joined.map Prod.fst).Perm keys := by simpa using hsound.queries
  refine ⟨hsound.balanced, by simpa [queriesAt] using hsound.begun, ?_⟩
  have heq : joined = (joined.map Prod.fst).map fun q => (q, p q) := by
    rw [List.map_map]
    conv_lhs => rw [← List.map_id joined]
    apply List.map_congr_left
    intro e he
    exact Prod.ext rfl (hsound.joined e he)
  rw [heq]
  exact hjoined.map _

end Flight

end Lockstep
