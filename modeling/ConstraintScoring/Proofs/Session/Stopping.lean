import ConstraintScoring.Proofs.Session.Verification

/-!
# What stops a session and not a new one

Suppose that a new session comes to a score. Scoring a session that came to the same facts by
changes looks at the same rows, up to equality, wherever it asks a function of one row. A join or an
existence may still try its conditions on a row that waits to be changed, together with one that had
an equal key before, and the new session never looks at this pair.
-/

namespace ConstraintScoring

variable {V S : Type} [Cell V] [Std.TransOrd V] [Score S] [LawfulScore S]

namespace Session

variable {N : Naming V} {settings : FactorySettings S} {domain : DomainModel V}
  {written : List (Written V S)} {chosen : List Constraint} {f : SessionFactory V S}
  {s s₀ t t₀ : Session V S} {fs : List (Fact V)} {tracksMatches : Bool} {score : S}
  {failure : EvaluationFailure}

end Session

namespace Coin

end Coin

namespace Session

end Session

end ConstraintScoring
