import ConstraintScoring.Cell
import ConstraintScoring.ConstraintRef
import ConstraintScoring.Score.Basic

/-!
# Matches and explanations

A match is one row a constraint scored: its impact, why it matched and whom it indicts. Entities
are referred to by the type and the label they are shown with, and nothing else tells them apart.
-/

namespace ConstraintScoring

-- The sum of no numbers is the zero of the core library, whatever else is imported.
attribute [local instance (2000)] Zero.ofOfNat0

structure EntityRef where
  typeName : String
  label : String
deriving DecidableEq

def lastSegmentFrom (segment : List Char) : List Char → List Char
  | [] => segment
  | ':' :: ':' :: rest => lastSegmentFrom rest rest
  | _ :: rest => lastSegmentFrom segment rest

/-- What follows the last double colon of a path. -/
def lastSegment (path : List Char) : List Char := lastSegmentFrom path path

namespace EntityRef

def ofCell {V : Type} [Cell V] (v : V) : EntityRef := ⟨Cell.typeName v, Cell.label v⟩

def shortTypeName (e : EntityRef) : String := String.ofList (lastSegment e.typeName.toList)

def debugText (e : EntityRef) : String := e.shortTypeName ++ "(" ++ e.label ++ ")"

end EntityRef

structure Justification where
  entities : List EntityRef
  description : String
deriving DecidableEq

namespace Justification

/-- Described by the labels of its entities. -/
def ofEntities (entities : List EntityRef) : Justification :=
  ⟨entities, ", ".intercalate (entities.map (·.label))⟩

def ofRow {V : Type} [Cell V] (row : Row V) : Justification := ofEntities (row.map .ofCell)

end Justification

structure ConstraintMatch (S : Type) where
  constraint : ConstraintRef
  score : S
  justification : Justification
  indicted : List EntityRef

/-- A constraint's weight and total with its matches. -/
structure ConstraintAnalysis (S : Type) where
  constraint : ConstraintRef
  weight : S
  score : S
  matched : List (ConstraintMatch S)

namespace ConstraintAnalysis

variable {S : Type}

def isHard [Score S] (a : ConstraintAnalysis S) : Bool := Score.hasHardPart a.weight

def matchCount (a : ConstraintAnalysis S) : Nat := a.matched.length

end ConstraintAnalysis

structure ScoreExplanation (S : Type) where
  score : S
  constraints : List (ConstraintAnalysis S)

namespace ScoreExplanation

variable {S : Type}

def matched (e : ScoreExplanation S) : List (ConstraintMatch S) :=
  e.constraints.flatMap (·.matched)

def matchCount (e : ScoreExplanation S) : Nat := (e.constraints.map (·.matchCount)).sum

/-- The first constraint of that name or full name. -/
def constraint? (e : ScoreExplanation S) (name : String) : Option (ConstraintAnalysis S) :=
  e.constraints.find? fun a => a.constraint.name == name || a.constraint.fullName == name

def impacting [Score S] (e : ScoreExplanation S) : List (ConstraintAnalysis S) :=
  e.constraints.filter fun a => !Score.isZero a.score

end ScoreExplanation

end ConstraintScoring
