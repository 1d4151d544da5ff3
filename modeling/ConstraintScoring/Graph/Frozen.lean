import ConstraintScoring.Graph.Builder
import ConstraintScoring.Graph.Weights

/-!
# Frozen graphs

A graph is frozen for a choice of constraints and weights. A chosen constraint whose weight is not
zero is active, and so is every declaration its score depends on; the active constraints that
depend on a declaration are its owners.
-/

namespace ConstraintScoring

structure DeclarationGraph (V S : Type) where
  declarations : Array (Declaration V)
  constraints : Array (ConstraintDef V S)
  /-- Indices of the active constraints, ascending. -/
  activeConstraints : List Nat
  /-- For each declaration the active constraints that depend on it, ascending. -/
  owners : Array (List Nat)

namespace DeclarationGraph

variable {V S : Type}

def size (g : DeclarationGraph V S) : Nat := g.declarations.size

def ownersOf (g : DeclarationGraph V S) (id : DeclId) : List Nat := g.owners.getD id []

def isActive (g : DeclarationGraph V S) (id : DeclId) : Bool := !(g.ownersOf id).isEmpty

def activeCount (g : DeclarationGraph V S) : Nat :=
  ((List.range g.size).filter g.isActive).length

def refOf? (g : DeclarationGraph V S) (constraint : Nat) : Option ConstraintRef :=
  g.constraints[constraint]?.map (·.ref)

def ownerNames (g : DeclarationGraph V S) (id : DeclId) : List String :=
  ((g.ownersOf id).filterMap g.refOf?).map (·.fullName)

def activeRefs (g : DeclarationGraph V S) : List ConstraintRef :=
  g.activeConstraints.filterMap g.refOf?

def debugText (g : DeclarationGraph V S) : String :=
  "DeclarationGraph \x7b declarations: " ++ toString g.size ++ ", active: " ++
    toString g.activeCount ++ ", constraints: " ++ toString g.activeConstraints.length ++ " \x7d"

end DeclarationGraph

namespace GraphBuilder

variable {V S : Type}

/-- Replaces the weight of a constraint by its effective weight. -/
def reweigh (overrides : WeightOverrides S) (c : ConstraintDef V S) : ConstraintDef V S :=
  { c with weight := overrides.effective c.ref c.weight }

/-- The constraints and the active ones among those selected so far. -/
structure Selection (V S : Type) where
  constraints : Array (ConstraintDef V S)
  active : List Nat

/-- Selects one more constraint, which is active unless its effective weight is zero. -/
def Selection.add [Score S] (overrides : WeightOverrides S) (s : Selection V S) (index : Nat) :
    Except EngineError (Selection V S) :=
  match s.constraints[index]? with
  | none => .error (.internal s!"unknown constraint index {index}")
  | some c =>
      let c := reweigh overrides c
      let constraints := s.constraints.setIfInBounds index c
      if Score.isZero c.weight || s.active.contains index then .ok { s with constraints }
      else .ok ⟨constraints, s.active ++ [index]⟩

/-- A walk from the end of a constraint to all that it depends on. -/
structure Walk where
  pending : List DeclId
  owners : Array (List Nat)

/-- Goes on with the next declaration, unless the walk has been there. -/
def Walk.step (declarations : Array (Declaration V)) (index : Nat) (w : Walk) : Walk :=
  match w.pending with
  | [] => w
  | id :: pending =>
      match declarations[id]? with
      | none => { w with pending }
      | some d =>
          if (w.owners.getD id []).contains index then { w with pending }
          else ⟨d.parents.reverse ++ pending, w.owners.modify id (· ++ [index])⟩

def Walk.run (declarations : Array (Declaration V)) (index : Nat) : Nat → Walk → Walk
  | 0, w => w
  | n + 1, w => run declarations index n (w.step declarations index)

/-- No walk takes more steps: it starts with one declaration, and goes on to the parents of each
declaration once. -/
def walkLength (declarations : Array (Declaration V)) : Nat :=
  1 + (declarations.toList.flatMap (·.parents)).length

def scoreDeclOf (constraints : Array (ConstraintDef V S)) (index : Nat) : DeclId :=
  match constraints[index]? with
  | some c => c.scoreDecl
  | none => 0

/-- Enters a constraint as an owner of everything that its end depends on. -/
def addOwner (declarations : Array (Declaration V)) (constraints : Array (ConstraintDef V S))
    (owners : Array (List Nat)) (index : Nat) : Array (List Nat) :=
  (Walk.run declarations index (walkLength declarations)
    ⟨[scoreDeclOf constraints index], owners⟩).owners

/-- The graph for a selection of its constraints. -/
def selectedGraph (g : GraphBuilder V S) (s : Selection V S) : DeclarationGraph V S :=
  let active := (List.range s.constraints.size).filter s.active.contains
  { declarations := g.declarations
    constraints := s.constraints
    activeConstraints := active
    owners := active.foldl (addOwner g.declarations s.constraints) (Array.replicate g.size []) }

/-- Freezes the graph for the selected constraints, in whatever order and however often they were
selected. -/
def freeze [Score S] (g : GraphBuilder V S) (selected : List Nat) (overrides : WeightOverrides S) :
    Except EngineError (DeclarationGraph V S) := do
  return g.selectedGraph (← selected.foldlM (Selection.add overrides) ⟨g.constraints, []⟩)

end GraphBuilder

end ConstraintScoring
