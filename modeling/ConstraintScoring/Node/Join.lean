import ConstraintScoring.Node.TupleIndex
import ConstraintScoring.Stream.Joiner

/-!
# Joins

One output for each pair of a left and a right tuple with equal keys that the conditions accept.
-/

namespace ConstraintScoring

structure JoinNode (V : Type) where
  indexer : JoinIndexer V
  left : TupleIndex V
  right : TupleIndex V
  /-- The outputs by left and then by right tuple. -/
  byLeft : Table TupleId (Table TupleId TupleId)
  /-- The left tuples that a right tuple is paired with. -/
  byRight : Table TupleId (List TupleId)

namespace JoinNode

variable {V : Type} [Cell V]

def new (indexer : JoinIndexer V) : JoinNode V := ⟨indexer, .empty, .empty, .empty, .empty⟩

def index (n : JoinNode V) : Side → TupleIndex V
  | .left => n.left
  | .right => n.right

def opposite (n : JoinNode V) : Side → TupleIndex V
  | .left => n.right
  | .right => n.left

def oriented (side : Side) (input other : TupleId) : TupleId × TupleId :=
  match side with
  | .left => (input, other)
  | .right => (other, input)

omit [Cell V] in
def outputOf (n : JoinNode V) (l r : TupleId) : Option TupleId :=
  (n.byLeft.get? l).bind (·.get? r)

omit [Cell V] in
def addPair (n : JoinNode V) (l r out : TupleId) : JoinNode V :=
  { n with
    byLeft := n.byLeft.insert l ((n.byLeft.getD l .empty).insert r out)
    byRight := n.byRight.insert r (includeTuple l (n.byRight.getD r [])) }

omit [Cell V] in
def dropPair (n : JoinNode V) (l r : TupleId) : JoinNode V :=
  { n with
    byLeft := n.byLeft.modify l (·.eraseSwap r)
    byRight := n.byRight.modify r (excludeTuple l) }

omit [Cell V] in
/-- Tries the conditions on a pair with equal keys and brings its output in line. -/
def refreshPair (n : JoinNode V) (l r : TupleId) : Stage V (JoinNode V) := do
  let left ← Stage.rowOf l
  let right ← Stage.rowOf r
  let passes ← Stage.ofExcept (n.indexer.accepts left right)
  match n.outputOf l r, passes with
  | some out, true =>
      Stage.update out (left ++ right)
      return n
  | some out, false =>
      Stage.retract out
      return n.dropPair l r
  | none, true =>
      let out ← Stage.insert (left ++ right)
      return n.addPair l r out
  | none, false => return n

omit [Cell V] in
def refreshAll (n : JoinNode V) (side : Side) (input : TupleId) :
    List TupleId → Stage V (JoinNode V)
  | [] => return n
  | other :: others => do
      let (l, r) := oriented side input other
      (← n.refreshPair l r).refreshAll side input others

def indexed (n : JoinNode V) (side : Side) (input : TupleId) (k : Key V) : JoinNode V :=
  match side with
  | .left => { n with left := n.left.insert input k }
  | .right => { n with right := n.right.insert input k }

def insert (n : JoinNode V) (side : Side) (input : TupleId) : Stage V (JoinNode V) := do
  let k ← Stage.ofExcept (n.indexer.key side (← Stage.rowOf input))
  let candidates := (n.opposite side).withKey k
  (n.indexed side input k).refreshAll side input candidates

omit [Cell V] in
/-- Retracts the outputs of a left tuple that is leaving. -/
def retractRights (l : TupleId) (byRight : Table TupleId (List TupleId)) :
    List (TupleId × TupleId) → Stage V (Table TupleId (List TupleId))
  | [] => return byRight
  | (r, out) :: rest => do
      Stage.retract out
      retractRights l (byRight.modify r (excludeTuple l)) rest

omit [Cell V] in
/-- Retracts the outputs of a right tuple that is leaving. -/
def retractLefts (r : TupleId) (byLeft : Table TupleId (Table TupleId TupleId)) :
    List TupleId → Stage V (Table TupleId (Table TupleId TupleId))
  | [] => return byLeft
  | l :: rest => do
      match (byLeft.get? l).bind (·.get? r) with
      | some out =>
          Stage.retract out
          retractLefts r (byLeft.modify l (·.eraseSwap r)) rest
      | none => retractLefts r byLeft rest

def retract (n : JoinNode V) (side : Side) (input : TupleId) : Stage V (JoinNode V) := do
  match side with
  | .left =>
      let byRight ← retractRights input n.byRight (n.byLeft.getD input .empty).entries
      return { n with left := n.left.remove input, byLeft := n.byLeft.erase input, byRight }
  | .right =>
      let byLeft ← retractLefts input n.byLeft (n.byRight.getD input [])
      return { n with right := n.right.remove input, byLeft, byRight := n.byRight.erase input }

def update (n : JoinNode V) (side : Side) (input : TupleId) : Stage V (JoinNode V) := do
  let k ← Stage.ofExcept (n.indexer.key side (← Stage.rowOf input))
  if (n.index side).hasKey input k then
    n.refreshAll side input ((n.opposite side).withKey k)
  else (← n.retract side input).insert side input

def onEvent (n : JoinNode V) (side : Side) (event : Event) (input : TupleId) :
    Stage V (JoinNode V) :=
  match event with
  | .insert => n.insert side input
  | .update => n.update side input
  | .retract => n.retract side input

end JoinNode

end ConstraintScoring
