import Lockstep.Metadata.Provider

/-!
# Lookups and their cache

Every pass asks for metadata afresh. A cache between the passes and a provider
keeps each answer, failures included, and counts how many lookups it answered
itself (hits) and how many it passed on (misses).

A lookup is an action on some state: none for a bare provider, the cache for a
cached one. `Cache.check` and `Cache.store` are the two halves of a cached
lookup, on either side of the question to the provider.
-/

namespace Lockstep

/-- Answers a query, on a state that may remember. -/
abbrev Lookup (σ : Type) := Query → StateM σ Answer

/-- The lookups of a bare provider. -/
def Provider.lookup (p : Provider) : Lookup Unit :=
  fun q => pure (p q)

/-- The answers seen so far, and how many lookups were served and passed on. -/
structure Cache where
  answers : SortedMap Query Answer := ∅
  hits : Nat := 0
  misses : Nat := 0
deriving Inhabited

namespace Cache

/-- The answer at hand, if any; the count of hits or of misses goes up. -/
def check (q : Query) (c : Cache) : Option Answer × Cache :=
  match c.answers.get? q with
  | some a => (some a, { c with hits := c.hits + 1 })
  | none => (none, { c with misses := c.misses + 1 })

/-- Keeps an answer. -/
def store (q : Query) (a : Answer) (c : Cache) : Cache :=
  { c with answers := c.answers.insert q a }

/-- The lookups of a provider behind a cache. -/
def lookup (p : Provider) : Lookup Cache := fun q c =>
  match c.check q with
  | (some a, c) => (a, c)
  | (none, c) => (p q, c.store q (p q))

end Cache

end Lockstep
