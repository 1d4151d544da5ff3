import ConstraintScoring.Analysis.Match
import ConstraintScoring.Table

/-!
# Indictments

The matches regrouped by the entities they indict. A match counts once for an entity however often
it names the entity.
-/

namespace ConstraintScoring

structure Indictment (S : Type) where
  entity : EntityRef
  score : S
  matched : List (ConstraintMatch S)

namespace Indictment

variable {S : Type}

def new [Score S] (entity : EntityRef) : Indictment S := ⟨entity, Score.zero, []⟩

def push [Score S] (i : Indictment S) (m : ConstraintMatch S) :
    Except Overflow (Indictment S) := do
  let score ← Score.add i.score m.score
  return { i with score, matched := i.matched ++ [m] }

def matchCount (i : Indictment S) : Nat := i.matched.length

/-- The constraints of the matches, each once, as they first come. -/
def constraints (i : Indictment S) : List ConstraintRef :=
  (i.matched.map (·.constraint)).eraseDups

end Indictment

structure IndictmentMap (S : Type) where
  byEntity : Table EntityRef (Indictment S)

namespace IndictmentMap

variable {S : Type} [Score S]

def empty : IndictmentMap S := ⟨.empty⟩

def add (t : Table EntityRef (Indictment S)) (m : ConstraintMatch S) (entity : EntityRef) :
    Except Overflow (Table EntityRef (Indictment S)) := do
  let i ← ((t.get? entity).getD (.new entity)).push m
  return t.insert entity i

def addMatch (t : Table EntityRef (Indictment S)) (m : ConstraintMatch S) :
    Except Overflow (Table EntityRef (Indictment S)) :=
  m.indicted.eraseDups.foldlM (add · m) t

def ofMatches (ms : List (ConstraintMatch S)) : Except Overflow (IndictmentMap S) := do
  return ⟨← ms.foldlM addMatch .empty⟩

def get? (t : IndictmentMap S) (entity : EntityRef) : Option (Indictment S) :=
  t.byEntity.get? entity

def indictments (t : IndictmentMap S) : List (Indictment S) := t.byEntity.values

def size (t : IndictmentMap S) : Nat := t.byEntity.size

/-- By ascending score. -/
def worstFirst (t : IndictmentMap S) : List (Indictment S) :=
  t.indictments.mergeSort fun a b => Score.order a.score b.score != .gt

end IndictmentMap

end ConstraintScoring
