import ConstraintScoring.Table
import ConstraintScoring.Tuple.Arena

/-!
# Steps on single rows

A filter hands on the rows it accepts, a map computes a row from each row, and a flattening makes
a row of each item of the expansion of the last column, matching old and new rows by position.
-/

namespace ConstraintScoring

structure FilterNode (V : Type) where
  accepts : Row V → Except Fault Bool
  outputs : Table TupleId TupleId

namespace FilterNode

variable {V : Type}

def new (accepts : Row V → Except Fault Bool) : FilterNode V := ⟨accepts, .empty⟩

def drop (n : FilterNode V) (input : TupleId) : Stage V (FilterNode V) := do
  match n.outputs.get? input with
  | some out =>
      Stage.retract out
      return { n with outputs := n.outputs.erase input }
  | none => return n

def refresh (n : FilterNode V) (input : TupleId) : Stage V (FilterNode V) := do
  let row ← Stage.rowOf input
  let passes ← Stage.ofExcept (n.accepts row)
  match n.outputs.get? input, passes with
  | some out, true =>
      Stage.update out row
      return n
  | some _, false => n.drop input
  | none, true =>
      let out ← Stage.insert row
      return { n with outputs := n.outputs.insert input out }
  | none, false => return n

def onEvent (n : FilterNode V) (event : Event) (input : TupleId) : Stage V (FilterNode V) :=
  match event with
  | .insert | .update => n.refresh input
  | .retract => n.drop input

end FilterNode

structure MapNode (V : Type) where
  columns : List (Row V → Except Fault V)
  outputs : Table TupleId TupleId

namespace MapNode

variable {V : Type}

def new (columns : List (Row V → Except Fault V)) : MapNode V := ⟨columns, .empty⟩

def image (n : MapNode V) (row : Row V) : Except Fault (Row V) := n.columns.mapM (· row)

def add (n : MapNode V) (input : TupleId) (row : Row V) : Stage V (MapNode V) := do
  let out ← Stage.insert row
  return { n with outputs := n.outputs.insert input out }

def onEvent (n : MapNode V) (event : Event) (input : TupleId) : Stage V (MapNode V) := do
  match event with
  | .insert => n.add input (← Stage.ofExcept (n.image (← Stage.rowOf input)))
  | .update =>
      let row ← Stage.ofExcept (n.image (← Stage.rowOf input))
      match n.outputs.get? input with
      | some out =>
          Stage.update out row
          return n
      | none => n.add input row
  | .retract =>
      match n.outputs.get? input with
      | some out =>
          Stage.retract out
          return { n with outputs := n.outputs.erase input }
      | none => return n

end MapNode

structure FlattenNode (V : Type) where
  expand : Row V → Except Fault (List V)
  outputs : Table TupleId (List TupleId)

namespace FlattenNode

variable {V : Type}

def new (expand : Row V → Except Fault (List V)) : FlattenNode V := ⟨expand, .empty⟩

def images (n : FlattenNode V) (row : Row V) : Except Fault (List (Row V)) := do
  return (← n.expand row).map fun item => row.dropLast ++ [item]

/-- Gives the new rows to the old outputs in order; the result are the outputs afterwards. -/
def refit : List TupleId → List (Row V) → Stage V (List TupleId)
  | outs, [] => do
      Stage.retractAll outs
      return []
  | [], row :: rows => do
      let out ← Stage.insert row
      return out :: (← refit [] rows)
  | out :: outs, row :: rows => do
      Stage.update out row
      return out :: (← refit outs rows)

def onEvent (n : FlattenNode V) (event : Event) (input : TupleId) : Stage V (FlattenNode V) := do
  match event with
  | .insert | .update =>
      let rows ← Stage.ofExcept (n.images (← Stage.rowOf input))
      let outs ← refit (n.outputs.getD input []) rows
      if outs.isEmpty then return { n with outputs := n.outputs.erase input }
      else return { n with outputs := n.outputs.insert input outs }
  | .retract =>
      Stage.retractAll (n.outputs.getD input [])
      return { n with outputs := n.outputs.erase input }

end FlattenNode

end ConstraintScoring
