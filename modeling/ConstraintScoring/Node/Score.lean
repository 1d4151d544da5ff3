import ConstraintScoring.ConstraintRef
import ConstraintScoring.Score.Basic
import ConstraintScoring.Table
import ConstraintScoring.Tuple.Arena

/-!
# Scoring

Every tuple that reaches the end of a constraint has an impact: the weight of the constraint times
the weight of the match, negated for a penalty. The ledger keeps the sum of the impacts of each
constraint, their number, and the sum of them all.
-/

namespace ConstraintScoring

structure ConstraintTotal (S : Type) where
  ref : ConstraintRef
  score : S
  matchCount : Nat

structure Ledger (S : Type) where
  score : S
  /-- By constraint index. -/
  totals : Array (ConstraintTotal S)

namespace Ledger

variable {S : Type} [Score S]

def new (refs : Array ConstraintRef) : Ledger S :=
  ⟨Score.zero, refs.map fun ref => ⟨ref, Score.zero, 0⟩⟩

/-- Changes the total of a constraint and the overall score alike. -/
def change (l : Ledger S) (constraint : Nat) (step : S → Except Overflow S)
    (count : Nat → Nat) : Except Overflow (Ledger S) := do
  match l.totals[constraint]? with
  | none => return l
  | some total =>
      let score ← step total.score
      let overall ← step l.score
      return ⟨overall, l.totals.setIfInBounds constraint
        { total with score, matchCount := count total.matchCount }⟩

def add (l : Ledger S) (constraint : Nat) (impact : S) : Except Overflow (Ledger S) :=
  l.change constraint (Score.add · impact) (· + 1)

def replaceIn (old new score : S) : Except Overflow S := do
  Score.add (← Score.sub score old) new

def replace (l : Ledger S) (constraint : Nat) (old new : S) : Except Overflow (Ledger S) :=
  l.change constraint (replaceIn old new) id

def remove (l : Ledger S) (constraint : Nat) (impact : S) : Except Overflow (Ledger S) :=
  l.change constraint (Score.sub · impact) (· - 1)

end Ledger

structure ScoreNode (V S : Type) where
  constraint : Nat
  impact : Impact
  weight : S
  weigher : Option (Row V → Except Fault MatchWeight)
  impacts : Table TupleId S

namespace ScoreNode

variable {V S : Type} [Score S]

def asFault {α : Type} : Except Overflow α → Except Fault α
  | .ok a => .ok a
  | .error step => .error (.overflow step)

def matchWeight (n : ScoreNode V S) (row : Row V) : Except Fault MatchWeight :=
  match n.weigher with
  | some weigh => weigh row
  | none => .ok .one

def signed (impact : Impact) (magnitude : S) : Except Overflow S :=
  match impact with
  | .penalty => Score.neg magnitude
  | .reward => .ok magnitude

def impactOf (n : ScoreNode V S) (row : Row V) : Except Fault S := do
  asFault (signed n.impact (Score.timesWeight n.weight (← n.matchWeight row)))

def record (n : ScoreNode V S) (input : TupleId) (impact : S) : ScoreNode V S :=
  { n with impacts := n.impacts.insert input impact }

def onEvent (n : ScoreNode V S) (event : Event) (input : TupleId) (row : Row V)
    (ledger : Ledger S) : Except Fault (ScoreNode V S × Ledger S) := do
  match event with
  | .insert =>
      let impact ← n.impactOf row
      return (n.record input impact, ← asFault (ledger.add n.constraint impact))
  | .update =>
      let impact ← n.impactOf row
      match n.impacts.get? input with
      | some old =>
          return (n.record input impact, ← asFault (ledger.replace n.constraint old impact))
      | none => return (n.record input impact, ← asFault (ledger.add n.constraint impact))
  | .retract =>
      match n.impacts.get? input with
      | some old =>
          return ({ n with impacts := n.impacts.erase input },
            ← asFault (ledger.remove n.constraint old))
      | none => return (n, ledger)

end ScoreNode

end ConstraintScoring
