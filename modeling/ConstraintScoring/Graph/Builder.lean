import ConstraintScoring.Graph.Declaration

/-!
# Building the declaration graph

Every step handed to the graph is looked up by its key first: a step that is already there is
shared, and only a new one is added, below its parents.
-/

namespace ConstraintScoring

structure GraphBuilder (V S : Type) where
  declarations : Array (Declaration V)
  canonical : Table DeclarationKey DeclId
  constraints : Array (ConstraintDef V S)
  /-- The number for the next function that is not known by a name. -/
  nextFunction : Nat

/-- A change of the graph that may fail; what was changed before a failure stays changed. -/
abbrev Build (V S : Type) := ExceptT EngineError (StateM (GraphBuilder V S))

namespace GraphBuilder

variable {V S : Type}

def empty : GraphBuilder V S := ⟨#[], .empty, #[], 0⟩

def size (g : GraphBuilder V S) : Nat := g.declarations.size

def width (g : GraphBuilder V S) (id : DeclId) : Nat :=
  match g.declarations[id]? with
  | some d => d.width
  | none => 0

def numbered {α : Type} (x : Numbering α) : Build V S α := do
  let g ← get
  let (a, n) := x.run g.nextFunction
  set { g with nextFunction := n }
  return a

def addChild (child : DeclId) (d : Declaration V) : Declaration V :=
  { d with children := d.children ++ [child] }

def attachChild (child parent : DeclId) : Build V S Unit := do
  let g ← get
  match g.declarations[parent]? with
  | none => throw (.sharingViolation s!"parent declaration {parent} does not exist")
  | some d =>
      if g.canonical.get? d.key != some parent then
        throw (.sharingViolation (d.kind.label ++ s!" declaration {parent} is not canonical"))
      else if d.children.contains child then
        throw (.sharingViolation s!"declaration {child} is already a child of {parent}")
      else set { g with declarations := g.declarations.modify parent (addChild child) }

/-- Adds a new declaration below its parents. -/
def append (c : Candidate V) : Build V S DeclId := do
  let g ← get
  match c.key.parents.find? (g.size ≤ ·) with
  | some parent => throw (.sharingViolation s!"parent declaration {parent} does not exist")
  | none =>
      let id := g.size
      set { g with
        declarations := g.declarations.push ⟨c.key, c.operation, c.width, [], none⟩
        canonical := g.canonical.insert c.key id }
      c.key.parents.forM (attachChild id)
      return id

/-- The declaration for the candidate's key, added if it is not there yet. -/
def share (c : Candidate V) : Build V S DeclId := do
  match (← get).canonical.get? c.key with
  | some id => return id
  | none => append c

def setAftBridge (bridge : DeclId) (d : Declaration V) : Declaration V :=
  { d with aftBridge := some bridge }

/-- Shares a step together with the aft bridge that hands its rows on, and returns the bridge. -/
def shareBridged (c : Candidate V) : Build V S DeclId := do
  match (← get).canonical.get? c.key with
  | some id =>
      match (← get).declarations[id]?.bind (·.aftBridge) with
      | some bridge => return bridge
      | none => throw (.internal s!"declaration {id} has no aft bridge")
  | none =>
      let id ← append c
      let bridge ← share (.aftBridge id c.width)
      modify fun g => { g with declarations := g.declarations.modify id (setAftBridge bridge) }
      return bridge

def foreBridge (parent : DeclId) (side : Side) : Build V S DeclId := do
  share (.foreBridge parent side ((← get).width parent))

/-- Registers a constraint at the end of a stream and returns its index. -/
def addConstraint (parent : DeclId) (c : ConstraintDef V S) : Build V S Nat := do
  let g ← get
  if g.constraints.any fun d => d.ref.fullName == c.ref.fullName then
    throw (.config (.duplicateConstraint c.ref.fullName))
  else
    let index := g.constraints.size
    let id ← share (.score parent index (g.width parent))
    modify fun g => { g with constraints := g.constraints.push { c with scoreDecl := id } }
    return index

end GraphBuilder

end ConstraintScoring
