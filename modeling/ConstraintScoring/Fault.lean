import ConstraintScoring.Number.Whole

/-!
# Faults

What can stop an evaluation half-way: a user function that gives up, arithmetic that leaves its
range, or a step the engine takes only if its own books are wrong.
-/

namespace ConstraintScoring

inductive Overflow where
  | add
  | subtract
  | negate
  | multiply
deriving DecidableEq

def Overflow.message : Overflow → String
  | .add => "attempt to add with overflow"
  | .subtract => "attempt to subtract with overflow"
  | .negate => "attempt to negate with overflow"
  | .multiply => "attempt to multiply with overflow"

inductive Fault where
  /-- A user function gave up with a message. -/
  | raised (message : String)
  /-- A user function gave up with something that has no text. -/
  | wordless
  | overflow (step : Overflow)
  /-- The engine caught itself breaking one of its own rules. -/
  | defect (message : String)
deriving DecidableEq

def Fault.message : Fault → String
  | .raised message => message
  | .wordless => "non-string panic payload"
  | .overflow step => step.message
  | .defect message => message

end ConstraintScoring
