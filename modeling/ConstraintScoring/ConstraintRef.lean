/-!
# Names of constraints

A constraint is known by a package, which may be empty, and a name.
-/

namespace ConstraintScoring

structure ConstraintRef where
  package : String
  name : String
deriving DecidableEq

namespace ConstraintRef

def fullName (r : ConstraintRef) : String :=
  if r.package = "" then r.name else r.package ++ "/" ++ r.name

/-- By package, then by name. -/
instance : Ord ConstraintRef :=
  ⟨fun a b => (compare a.package b.package).then (compare a.name b.name)⟩

end ConstraintRef

/-- Whether a match lowers the score or raises it. -/
inductive Impact where
  | penalty
  | reward
deriving DecidableEq

def Impact.sign : Impact → Int
  | penalty => -1
  | reward => 1

end ConstraintScoring
