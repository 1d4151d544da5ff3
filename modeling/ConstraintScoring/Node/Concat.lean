import ConstraintScoring.Stream.Function
import ConstraintScoring.Table
import ConstraintScoring.Tuple.Arena

/-!
# Concatenation

Hands on the rows of both inputs. A tuple that comes in on both sides has two outputs.
-/

namespace ConstraintScoring

structure ConcatNode where
  outputs : Table (Side × TupleId) TupleId

namespace ConcatNode

variable {V : Type}

def new : ConcatNode := ⟨.empty⟩

def add (n : ConcatNode) (side : Side) (input : TupleId) : Stage V ConcatNode := do
  let out ← Stage.insert (← Stage.rowOf input)
  return { n with outputs := n.outputs.insert (side, input) out }

def onEvent (n : ConcatNode) (side : Side) (event : Event) (input : TupleId) :
    Stage V ConcatNode := do
  match event with
  | .insert => n.add side input
  | .update =>
      match n.outputs.get? (side, input) with
      | some out =>
          Stage.update out (← Stage.rowOf input)
          return n
      | none => n.add side input
  | .retract =>
      match n.outputs.get? (side, input) with
      | some out =>
          Stage.retract out
          return { n with outputs := n.outputs.erase (side, input) }
      | none => return n

end ConcatNode

end ConstraintScoring
