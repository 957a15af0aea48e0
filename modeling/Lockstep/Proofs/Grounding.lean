import Lockstep.Proofs.Recalling
import Mathlib.Data.Fintype.Card
import Mathlib.Data.Set.Finite.Basic

/-!
# What forced alignment rests on

A platform is aligned by force if a forced edge or an enforced constraint fixes
the version of one of its members. The constraint may itself be the forced
alignment of another platform, which then has a reason of its own
(`AlignedPlatform.Leans`); the constraints of a pass that a run converges with
are those that the pass comes to, so that platform is there. There are finitely
many platforms: going from reason to reason either ends at one that something
other than alignment holds, or goes round in a circle
(`Request.grounded_of_converged`).

What holds it may be a forced demand that a round of the pass has met and the
last one only remembers.
-/

namespace Lockstep

namespace AlignedPlatform

end AlignedPlatform

namespace Alignment

variable {order : VersionOrder} {g : CandidateGraph} {rules : PlatformRules} {res : Resolution}

end Alignment

namespace Rounds.Settles

variable {order : VersionOrder} {g : CandidateGraph} {constraints : SortedSet Constraint}
  {r : Rounds} {live : Live} {round : Round} (h : r.Settles order g constraints live round)

include h

end Rounds.Settles

namespace Run.Converges

variable {r : Run} {p : Provider} {it : Iteration} {b : Builder} {res : Resolution}
  (h : r.Converges p it b res) (hdeclared : ∀ k ∈ r.declared, k.forced = false)

include h

include hdeclared

end Run.Converges

namespace Sample

/-- An older `base` forces `core` down, until the `auth` that it asks for takes it out. -/
def recalled : Request where
  root
  dependencies := [dependency "auth" "1", dependency "base" "1", dependency "core" "2"]
  rules := [⟨.one (id "core"), id "suite", .virtual⟩]

end Sample

end Lockstep
