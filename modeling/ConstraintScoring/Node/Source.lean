import ConstraintScoring.Domain
import ConstraintScoring.Tuple.Arena

/-!
# Sources

A source holds one tuple for each fact of its class, or for each that is assigned.
-/

namespace ConstraintScoring

structure SourceNode (V : Type) where
  type : String
  /-- The class whose unassigned facts are left out, if any are. -/
  assignedOnly : Option (FactClass V)
  outputs : Table (FactKey V) TupleId

namespace SourceNode

variable {V : Type} [Cell V]

def new (type : String) (assignedOnly : Option (FactClass V)) : SourceNode V :=
  ⟨type, assignedOnly, .empty⟩

def accepts (n : SourceNode V) (f : Fact V) : Except Fault Bool :=
  match n.assignedOnly with
  | none => .ok true
  | some c => c.isAssigned f

def insert (n : SourceNode V) (f : Fact V) : Stage V (SourceNode V) := do
  if ← Stage.ofExcept (n.accepts f) then
    let out ← Stage.insert [f.cell]
    return { n with outputs := n.outputs.insert f.key out }
  else return n

def retract (n : SourceNode V) (f : Fact V) : Stage V (SourceNode V) := do
  match n.outputs.get? f.key with
  | some out =>
      Stage.retract out
      return { n with outputs := n.outputs.erase f.key }
  | none => return n

def update (n : SourceNode V) (f : Fact V) : Stage V (SourceNode V) := do
  let accepted ← Stage.ofExcept (n.accepts f)
  match n.outputs.get? f.key, accepted with
  | some out, true =>
      Stage.update out [f.cell]
      return n
  | some out, false =>
      Stage.retract out
      return { n with outputs := n.outputs.erase f.key }
  | none, true =>
      let out ← Stage.insert [f.cell]
      return { n with outputs := n.outputs.insert f.key out }
  | none, false => return n

end SourceNode

end ConstraintScoring
