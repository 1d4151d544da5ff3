import ConstraintScoring.Cell
import ConstraintScoring.Fault
import ConstraintScoring.Table
import ConstraintScoring.Text.Escaped

/-!
# Facts and their classes

A fact is a cell together with its class and its planning id; class and id identify it. Facts of a
planning class may still be unassigned, which the class decides by a predicate.
-/

namespace ConstraintScoring

structure Fact (V : Type) where
  type : String
  id : V
  cell : V

/-- The identity of a fact. -/
structure FactKey (V : Type) where
  type : String
  id : V

instance {V : Type} [Cell V] : BEq (FactKey V) :=
  ⟨fun a b => a.type == b.type && Cell.same a.id b.id⟩

def Fact.key {V : Type} (f : Fact V) : FactKey V := ⟨f.type, f.id⟩

structure FactClass (V : Type) where
  type : String
  /-- Tells the assigned facts of a planning class from the others. -/
  assigned : Option (V → Except Fault Bool)
  planningId : V → V

namespace FactClass

variable {V : Type}

def canBeUnassigned (c : FactClass V) : Bool := c.assigned.isSome

/-- Whether a fact is assigned; to a planning class, a fact of another class never is. -/
def isAssigned (c : FactClass V) (f : Fact V) : Except Fault Bool :=
  match c.assigned with
  | none => .ok true
  | some p => if f.type = c.type then p f.cell else .ok false

def kindText (c : FactClass V) : String :=
  if c.canBeUnassigned then "PlanningEntity" else "ProblemFact"

def debugText (c : FactClass V) : String :=
  "FactClass \x7b type_name: " ++ Text.escaped c.type ++ ", kind: " ++ c.kindText ++ " \x7d"

end FactClass

/-- The fact classes a planning problem is made of, by type. -/
structure DomainModel (V : Type) where
  classes : Table String (FactClass V)

namespace DomainModel

variable {V : Type}

def empty : DomainModel V := ⟨.empty⟩

def withClass (m : DomainModel V) (c : FactClass V) : DomainModel V := ⟨m.classes.insert c.type c⟩

def class? (m : DomainModel V) (type : String) : Option (FactClass V) := m.classes.get? type

def size (m : DomainModel V) : Nat := m.classes.size

end DomainModel

end ConstraintScoring
