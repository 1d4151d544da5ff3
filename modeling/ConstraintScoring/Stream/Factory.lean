import ConstraintScoring.Graph.Frozen

/-!
# Constraint streams

A constraint factory hands out streams of rows and turns streams into constraints. Each operation
declares a step in the factory's graph or finds the step already there; streams of different
factories cannot be combined.
-/

namespace ConstraintScoring

structure ConstraintFactory (V S : Type) where
  id : Nat
  domain : DomainModel V
  graph : GraphBuilder V S

/-- A handle to the rows of a declaration. -/
structure Stream where
  factory : Nat
  decl : DeclId
  width : Nat
deriving DecidableEq

/-- A constraint of a factory. -/
structure Constraint where
  factory : Nat
  index : Nat
  ref : ConstraintRef
deriving DecidableEq

/-- What a constraint does with a row besides its weight. -/
structure ConstraintTerms (V S : Type) where
  impact : Impact
  weigher : Option (Row V → Except Fault MatchWeight) := none
  justifier : Option (Row V → S → Except Fault Justification) := none
  indicter : Option (Row V → Except Fault (List EntityRef)) := none

/-- A call on a constraint factory; what was declared before a failure stays declared. -/
abbrev Declaring (V S : Type) := ExceptT EngineError (StateM (ConstraintFactory V S))

namespace ConstraintFactory

variable {V S : Type}

def new (id : Nat) (domain : DomainModel V) : ConstraintFactory V S := ⟨id, domain, .empty⟩

def declarationCount (f : ConstraintFactory V S) : Nat := f.graph.size

/-- Changes the graph. -/
def withGraph {α : Type} (b : Build V S α) : Declaring V S α := do
  let f ← get
  let (result, graph) := b.run f.graph
  set { f with graph }
  match result with
  | .ok a => return a
  | .error e => throw e

/-- Changes the graph and makes a stream of the declaration that results. -/
def declare (width : Nat) (b : Build V S DeclId) : Declaring V S Stream := do
  let decl ← withGraph b
  return ⟨(← get).id, decl, width⟩

/-- Fails unless the stream is one of this factory's. -/
def own (s : Stream) : Declaring V S Unit := do
  if s.factory ≠ (← get).id then throw (.config .differentFactories)

def classOf (type : String) : Declaring V S (FactClass V) := do
  match (← get).domain.class? type with
  | some c => return c
  | none => throw (.config (.unknownClass type))

def source (type : String) (includeUnassigned : Bool) : Declaring V S Stream := do
  let c ← classOf type
  declare 1 (GraphBuilder.share (.source type (includeUnassigned || !c.canBeUnassigned)))

/-- The assigned facts of a class. -/
def forEach (type : String) : Declaring V S Stream := source type false

def forEachIncludingUnassigned (type : String) : Declaring V S Stream := source type true

def filter (s : Stream) (accepts : RowFunction V Bool) : Declaring V S Stream := do
  own s
  declare s.width do
    GraphBuilder.share (← GraphBuilder.numbered (Candidate.filter s.decl accepts s.width))

def map (s : Stream) (columns : List (RowFunction V V)) : Declaring V S Stream := do
  own s
  declare columns.length do
    GraphBuilder.shareBridged (← GraphBuilder.numbered (Candidate.map s.decl columns))

/-- Replaces the last column by each item of its expansion. -/
def flattenLast (s : Stream) (expand : RowFunction V (List V)) : Declaring V S Stream := do
  own s
  declare s.width do
    let c ← GraphBuilder.numbered (Candidate.flattenLast s.decl expand s.width)
    GraphBuilder.shareBridged c

/-- The rows of both streams; a row in both comes twice. -/
def concat (s t : Stream) : Declaring V S Stream := do
  own s
  own t
  declare s.width do
    let left ← GraphBuilder.foreBridge s.decl .left
    let right ← GraphBuilder.foreBridge t.decl .right
    GraphBuilder.shareBridged (.concat left right s.width)

def group (s : Stream) (parts : List (GroupPart V)) : Declaring V S Stream := do
  own s
  match GroupPart.check parts with
  | .error problem => throw (.config problem)
  | .ok () =>
      declare parts.length do
        GraphBuilder.shareBridged (← GraphBuilder.numbered (Candidate.group s.decl parts))

/-- The rows without repetitions, compared column by column. -/
def distinct (s : Stream) : Declaring V S Stream :=
  group s ((List.range s.width).map .column)

variable [Cell V]

/-- Pairs each row of `s` with the rows of `t` that belong to it. -/
def join (s t : Stream) (joiner : Joiner V) : Declaring V S Stream := do
  own s
  own t
  declare (s.width + t.width) do
    let left ← GraphBuilder.foreBridge s.decl .left
    let right ← GraphBuilder.foreBridge t.decl .right
    GraphBuilder.shareBridged
      (← GraphBuilder.numbered (Candidate.join left right joiner (s.width + t.width)))

/-- The rows of `s` to which some row of `t` belongs, or to which none does. -/
def existence (shouldExist : Bool) (s t : Stream) (joiner : Joiner V) : Declaring V S Stream := do
  own s
  own t
  declare s.width do
    let left ← GraphBuilder.foreBridge s.decl .left
    let right ← GraphBuilder.foreBridge t.decl .right
    GraphBuilder.shareBridged
      (← GraphBuilder.numbered (Candidate.exists left right shouldExist joiner s.width))

def ifExists : Stream → Stream → Joiner V → Declaring V S Stream := existence true

def ifNotExists : Stream → Stream → Joiner V → Declaring V S Stream := existence false

/-- Like `existence`, against the facts of a class. -/
def existenceOther (shouldExist includeUnassigned : Bool) (s : Stream) (type : String)
    (joiner : Joiner V) : Declaring V S Stream := do
  own s
  let t ← source type includeUnassigned
  existence shouldExist s t joiner

def planningIdOf (c : FactClass V) (row : Row V) : Except Fault V :=
  match row.head? with
  | some v => .ok (c.planningId v)
  | none => .error (.defect "column out of range")

/-- The pairs of assigned facts of a class that belong together, each pair once, the fact with the
smaller planning id first. -/
def forEachUniquePair (type : String) (joiner : Joiner V) : Declaring V S Stream := do
  let c ← classOf type
  let left ← forEach type
  let right ← forEach type
  let planningId : RowFunction V V := ⟨some ("planning id of " ++ type), planningIdOf c⟩
  join left right (.and joiner (.compare .less planningId planningId))

omit [Cell V] in
/-- Finishes a stream as a constraint. -/
def constraint (s : Stream) (ref : ConstraintRef) (weight : S) (terms : ConstraintTerms V S) :
    Declaring V S Constraint := do
  own s
  let index ← withGraph (GraphBuilder.addConstraint s.decl
    ⟨ref, terms.impact, weight, terms.weigher, terms.justifier, terms.indicter, s.decl⟩)
  return ⟨(← get).id, index, ref⟩

omit [Cell V] in
/-- The graph for the given constraints of this factory. -/
def freeze [Score S] (f : ConstraintFactory V S) (constraints : List Constraint)
    (overrides : WeightOverrides S) : Except EngineError (DeclarationGraph V S) :=
  match constraints.find? (·.factory != f.id) with
  | some c => .error (.config (.foreignConstraint c.ref.fullName))
  | none => f.graph.freeze (constraints.map (·.index)) overrides

end ConstraintFactory

end ConstraintScoring
