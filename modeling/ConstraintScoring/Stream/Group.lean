import ConstraintScoring.Collector.Accumulator
import ConstraintScoring.EngineError
import ConstraintScoring.Stream.Function

/-!
# Grouping

A grouping has one to four columns: keys first, then collectors. The rows that agree on all keys
form a group, and a group shows its keys and what its collectors make of its rows.
-/

namespace ConstraintScoring

/-- Takes a contribution from each row and shows what accumulates as a cell. -/
structure Collector (V : Type) where
  kind : CollectorKind
  contribution : RowFunction V (Contribution V)
  present : Collected V → V

def CollectorKind.label : CollectorKind → String
  | count => "count"
  | sum _ => "sum"
  | sumDecimal => "sum"
  | average => "average"
  | min => "min"
  | max => "max"
  | countDistinct => "count_distinct"
  | toSet => "to_set"
  | toList => "to_list"

inductive GroupPart (V : Type) where
  | key (f : RowFunction V V)
  /-- A column of the row itself, as a part of removing duplicates. -/
  | column (index : Nat)
  | collector (c : Collector V)

namespace GroupPart

variable {V : Type}

def columnAt (index : Nat) (row : Row V) : Except Fault V :=
  match row[index]? with
  | some v => .ok v
  | none => .error (.defect "column out of range")

def params : GroupPart V → Numbering (List Param)
  | key f => do return [.label "key", ← f.param]
  | column index => return [.label "key", .label "distinct", .index index]
  | collector c =>
      match c.kind with
      | .count => return [.label "collector", .label "count"]
      | kind => do return [.label "collector", .label kind.label, ← c.contribution.param]

def allParams : List (GroupPart V) → Numbering (List Param)
  | [] => return []
  | p :: ps => do return (← p.params) ++ (← allParams ps)

def keys : List (GroupPart V) → List (Row V → Except Fault V)
  | [] => []
  | key f :: ps => f.run :: keys ps
  | column index :: ps => columnAt index :: keys ps
  | collector _ :: ps => keys ps

def collectors : List (GroupPart V) → List (Collector V)
  | [] => []
  | collector c :: ps => c :: collectors ps
  | _ :: ps => collectors ps

def isCollector : GroupPart V → Bool
  | collector _ => true
  | _ => false

/-- Whether no key comes after a collector. -/
def keysFirst : List (GroupPart V) → Bool
  | [] => true
  | p :: ps => if p.isCollector then ps.all isCollector else keysFirst ps

def check (ps : List (GroupPart V)) : Except ConfigProblem Unit :=
  if ps.length = 0 ∨ 4 < ps.length then .error (.groupWidth ps.length)
  else if keysFirst ps then .ok ()
  else .error .keyAfterCollector

end GroupPart

end ConstraintScoring
