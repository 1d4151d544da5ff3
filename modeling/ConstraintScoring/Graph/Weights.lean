import ConstraintScoring.ConstraintRef
import ConstraintScoring.Score.Basic
import ConstraintScoring.Table
import ConstraintScoring.Text.Escaped

/-!
# Overriding the weights of constraints

A weight given for the full name of a constraint comes before one given for its bare name, and
that before the weight the constraint was declared with.
-/

namespace ConstraintScoring

structure WeightOverrides (S : Type) where
  weights : Table String S

namespace WeightOverrides

variable {S : Type}

def empty : WeightOverrides S := ⟨.empty⟩

def put (o : WeightOverrides S) (name : String) (weight : S) : WeightOverrides S :=
  ⟨o.weights.insert name weight⟩

def get? (o : WeightOverrides S) (name : String) : Option S := o.weights.get? name

def size (o : WeightOverrides S) : Nat := o.weights.size

def putAll (o : WeightOverrides S) (entries : List (String × S)) : WeightOverrides S :=
  entries.foldl (fun o (name, weight) => o.put name weight) o

def ofList (entries : List (String × S)) : WeightOverrides S := empty.putAll entries

/-- The weight of a constraint that was declared with weight `declared`. -/
def effective (o : WeightOverrides S) (c : ConstraintRef) (declared : S) : S :=
  ((o.get? c.fullName).or (o.get? c.name)).getD declared

def debugText [Score S] (o : WeightOverrides S) : String :=
  let entry (e : String × S) : String := Text.escaped e.1 ++ ": " ++ Score.debugText e.2
  "\x7b" ++ ", ".intercalate (o.weights.entries.map entry) ++ "\x7d"

end WeightOverrides

end ConstraintScoring
