import ConstraintScoring.Analysis.Match
import ConstraintScoring.Domain
import ConstraintScoring.Stream.Group
import ConstraintScoring.Stream.Joiner

/-!
# Declarations

A declaration is one step of a constraint stream: what it computes, from which declarations it
takes its rows, and its identity. Declarations are numbered in the order in which they are made,
so parents come before children. Steps with two inputs take them through fore bridges, which mark
the side, and steps whose rows are their own hand them on through an aft bridge.
-/

namespace ConstraintScoring

abbrev DeclId := Nat

inductive OpKind where
  | source
  | foreBridge
  | aftBridge
  | filter
  | join
  | exists
  | group
  | map
  | flattenLast
  | concat
  | score
deriving DecidableEq

def OpKind.label : OpKind → String
  | source => "for_each"
  | foreBridge => "fore_bridge"
  | aftBridge => "aft_bridge"
  | filter => "filter"
  | join => "join"
  | «exists» => "if_exists"
  | group => "group_by"
  | map => "map"
  | flattenLast => "flatten_last"
  | concat => "concat"
  | score => "score"

/-- The identity of a declaration. -/
structure DeclarationKey where
  kind : OpKind
  parents : List DeclId
  params : List Param
deriving DecidableEq

inductive Operation (V : Type) where
  | source (type : String) (includeUnassigned : Bool)
  | foreBridge (side : Side)
  | aftBridge
  | filter (accepts : Row V → Except Fault Bool)
  | join (indexer : JoinIndexer V)
  | exists (shouldExist : Bool) (indexer : JoinIndexer V)
  | group (keys : List (Row V → Except Fault V)) (collectors : List (Collector V))
  | map (columns : List (Row V → Except Fault V))
  | flattenLast (expand : Row V → Except Fault (List V))
  | concat
  | score (constraint : Nat)

/-- A declaration before it has a place in a graph. -/
structure Candidate (V : Type) where
  key : DeclarationKey
  operation : Operation V
  width : Nat

structure Declaration (V : Type) where
  key : DeclarationKey
  operation : Operation V
  width : Nat
  children : List DeclId
  aftBridge : Option DeclId

namespace Declaration

variable {V : Type}

def kind (d : Declaration V) : OpKind := d.key.kind

def parents (d : Declaration V) : List DeclId := d.key.parents

end Declaration

namespace Candidate

variable {V : Type}

def source (type : String) (includeUnassigned : Bool) : Candidate V :=
  ⟨⟨.source, [], [.type type, .flag includeUnassigned]⟩, .source type includeUnassigned, 1⟩

def foreBridge (parent : DeclId) (side : Side) (width : Nat) : Candidate V :=
  ⟨⟨.foreBridge, [parent], [.side side]⟩, .foreBridge side, width⟩

def aftBridge (parent : DeclId) (width : Nat) : Candidate V :=
  ⟨⟨.aftBridge, [parent], []⟩, .aftBridge, width⟩

def filter (parent : DeclId) (f : RowFunction V Bool) (width : Nat) : Numbering (Candidate V) := do
  return ⟨⟨.filter, [parent], [← f.param]⟩, .filter f.run, width⟩

def join [Cell V] (left right : DeclId) (joiner : Joiner V) (width : Nat) :
    Numbering (Candidate V) := do
  return ⟨⟨.join, [left, right], ← joiner.params⟩, .join joiner.compile, width⟩

def «exists» [Cell V] (left right : DeclId) (shouldExist : Bool) (joiner : Joiner V) (width : Nat) :
    Numbering (Candidate V) := do
  return ⟨⟨.exists, [left, right], .flag shouldExist :: (← joiner.params)⟩,
    .exists shouldExist joiner.compile, width⟩

def group (parent : DeclId) (parts : List (GroupPart V)) : Numbering (Candidate V) := do
  return ⟨⟨.group, [parent], ← GroupPart.allParams parts⟩,
    .group (GroupPart.keys parts) (GroupPart.collectors parts), parts.length⟩

def map (parent : DeclId) (columns : List (RowFunction V V)) : Numbering (Candidate V) := do
  return ⟨⟨.map, [parent], ← columns.mapM (·.param)⟩, .map (columns.map (·.run)), columns.length⟩

/-- Puts each item of the expansion of the last column in that column's place. -/
def expandLast (expand : RowFunction V (List V)) (row : Row V) : Except Fault (List V) :=
  match row.getLast? with
  | some last => expand.run [last]
  | none => .error (.defect "column out of range")

def flattenLast (parent : DeclId) (expand : RowFunction V (List V)) (width : Nat) :
    Numbering (Candidate V) := do
  return ⟨⟨.flattenLast, [parent], [← expand.param]⟩, .flattenLast (expandLast expand), width⟩

def concat (left right : DeclId) (width : Nat) : Candidate V :=
  ⟨⟨.concat, [left, right], []⟩, .concat, width⟩

/-- The end of a constraint's stream; its index keeps it from being shared. -/
def score (parent : DeclId) (constraint width : Nat) : Candidate V :=
  ⟨⟨.score, [parent], [.index constraint]⟩, .score constraint, width⟩

end Candidate

/-- A finished constraint. -/
structure ConstraintDef (V S : Type) where
  ref : ConstraintRef
  impact : Impact
  weight : S
  weigher : Option (Row V → Except Fault MatchWeight)
  justifier : Option (Row V → S → Except Fault Justification)
  indicter : Option (Row V → Except Fault (List EntityRef))
  scoreDecl : DeclId

end ConstraintScoring
