import ConstraintScoring.Fault
import ConstraintScoring.Text.Escaped

/-!
# Errors

What building constraints, building a session or a call on a session can answer instead of a
result.
-/

namespace ConstraintScoring

inductive ConfigProblem where
  | unknownClass (type : String)
  | differentFactories
  | foreignConstraint (fullName : String)
  | duplicateConstraint (fullName : String)
  | groupWidth (columns : Nat)
  | keyAfterCollector
  /-- A constraint weight that is no score. -/
  | malformedWeight (constraint detail : String)
deriving DecidableEq

def ConfigProblem.message : ConfigProblem → String
  | .unknownClass type => type ++ " is not part of the domain model"
  | .differentFactories => "streams of different constraint factories cannot be combined"
  | .foreignConstraint name => s!"constraint '{name}' belongs to a different constraint factory"
  | .duplicateConstraint name => s!"constraint '{name}' is defined more than once"
  | .groupWidth columns => s!"group_by produces {columns} columns; a tuple holds 1 to 4"
  | .keyAfterCollector => "group_by keys must precede its collectors"
  | .malformedWeight constraint detail =>
      s!"invalid engine config: weight of constraint '{constraint}': {detail}"

inductive DomainProblem where
  | unknownClass (type : String)
  /-- A source of the graph is of a class that the model does not have. -/
  | unknownSource (type : String)
deriving DecidableEq

def DomainProblem.message : DomainProblem → String
  | .unknownClass type => type ++ " is not part of the domain model"
  | .unknownSource type => "fact type " ++ type ++ " is not part of the domain model"

/-- A fault during evaluation, with what was being evaluated for which constraints. -/
structure EvaluationFailure where
  call : String
  node : String
  constraints : List String
  subject : String
  fault : Fault
deriving DecidableEq

inductive EngineError where
  | config (problem : ConfigProblem)
  | domainModel (problem : DomainProblem)
  | sharingViolation (detail : String)
  | unknownFact (fact : String)
  | duplicateFact (fact : String)
  | evaluation (failure : EvaluationFailure)
  | poisoned
  | matchTrackingDisabled
  | scoreCorruption (incremental rebuilt : String)
  | internal (detail : String)
deriving DecidableEq

namespace EngineError

/-- The kind of an error by name. -/
def kind : EngineError → String
  | config _ => "Config"
  | domainModel _ => "DomainModel"
  | sharingViolation _ => "SharingViolation"
  | unknownFact _ => "UnknownFact"
  | duplicateFact _ => "DuplicateFact"
  | evaluation _ => "Evaluation"
  | poisoned => "Poisoned"
  | matchTrackingDisabled => "MatchTrackingDisabled"
  | scoreCorruption _ _ => "ScoreCorruption"
  | internal _ => "Internal"

def message : EngineError → String
  | config problem => "Configuration error: " ++ problem.message
  | domainModel problem => "Domain model error: " ++ problem.message
  | sharingViolation detail => "Node sharing violation: " ++ detail
  | unknownFact fact => "Unknown fact: " ++ fact
  | duplicateFact fact => "Duplicate fact: " ++ fact
  | evaluation f =>
      f.call ++ " (" ++ f.node ++ " node) failed for constraints " ++ Text.escapedList f.constraints
        ++ " on " ++ f.subject ++ ": " ++ f.fault.message
  | poisoned => "Session is poisoned by an earlier evaluation failure and must be rebuilt"
  | matchTrackingDisabled => "Constraint match tracking is disabled for this session"
  | scoreCorruption incremental rebuilt =>
      s!"Score corruption: incremental score {incremental} differs from rebuilt score {rebuilt}"
  | internal detail => "Internal error: " ++ detail

end EngineError

end ConstraintScoring
