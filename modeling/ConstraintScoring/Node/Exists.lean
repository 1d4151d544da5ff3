import ConstraintScoring.Node.TupleIndex
import ConstraintScoring.Stream.Joiner

/-!
# Existence

Hands on the left rows to which some right row belongs, or those to which none does. Every left
tuple counts the right tuples that belong to it, and only a count that leaves or reaches zero
changes what is handed on.
-/

namespace ConstraintScoring

structure LeftEntry where
  count : Nat
  matched : List TupleId
  output : Option TupleId

structure ExistsNode (V : Type) where
  shouldExist : Bool
  indexer : JoinIndexer V
  left : TupleIndex V
  right : TupleIndex V
  lefts : Table TupleId LeftEntry
  /-- The left tuples that a right tuple belongs to. -/
  rights : Table TupleId (List TupleId)

namespace ExistsNode

variable {V : Type} [Cell V]

def new (shouldExist : Bool) (indexer : JoinIndexer V) : ExistsNode V :=
  ⟨shouldExist, indexer, .empty, .empty, .empty, .empty⟩

/-- The left tuples among `ls` that belong together with a right row. -/
def matchingLefts (indexer : JoinIndexer V) (right : Row V) :
    List TupleId → Stage V (List TupleId)
  | [] => return []
  | l :: ls => do
      let passes ← Stage.ofExcept (indexer.accepts (← Stage.rowOf l) right)
      let rest ← matchingLefts indexer right ls
      return if passes then l :: rest else rest

/-- The right tuples among `rs` that belong together with a left row. -/
def matchingRights (indexer : JoinIndexer V) (left : Row V) :
    List TupleId → Stage V (List TupleId)
  | [] => return []
  | r :: rs => do
      let passes ← Stage.ofExcept (indexer.accepts left (← Stage.rowOf r))
      let rest ← matchingRights indexer left rs
      return if passes then r :: rest else rest

omit [Cell V] in
/-- Brings the output of a left tuple in line with its count. -/
def refreshOutput (n : ExistsNode V) (l : TupleId) (rowChanged : Bool) :
    Stage V (ExistsNode V) := do
  match n.lefts.get? l with
  | none => return n
  | some entry =>
      match entry.output, (entry.count != 0) == n.shouldExist with
      | some out, true =>
          if rowChanged then Stage.update out (← Stage.rowOf l)
          return n
      | some out, false =>
          Stage.retract out
          return { n with lefts := n.lefts.insert l { entry with output := none } }
      | none, true =>
          let out ← Stage.insert (← Stage.rowOf l)
          return { n with lefts := n.lefts.insert l { entry with output := some out } }
      | none, false => return n

omit [Cell V] in
def attach (n : ExistsNode V) (l r : TupleId) : Stage V (ExistsNode V) := do
  match n.lefts.get? l with
  | none => return n
  | some entry =>
      let entry :=
        { entry with matched := includeTuple r entry.matched, count := entry.count + 1 }
      let n := { n with lefts := n.lefts.insert l entry }
      if entry.count = 1 then n.refreshOutput l false else return n

omit [Cell V] in
def detach (n : ExistsNode V) (l r : TupleId) : Stage V (ExistsNode V) := do
  match n.lefts.get? l with
  | none => return n
  | some entry =>
      if entry.count = 0 then throw (.defect "existence counter underflow")
      else
        let entry :=
          { entry with matched := excludeTuple r entry.matched, count := entry.count - 1 }
        let n := { n with lefts := n.lefts.insert l entry }
        if entry.count = 0 then n.refreshOutput l false else return n

omit [Cell V] in
def attachAll (r : TupleId) (n : ExistsNode V) : List TupleId → Stage V (ExistsNode V)
  | [] => return n
  | l :: ls => do attachAll r (← n.attach l r) ls

omit [Cell V] in
def detachAll (r : TupleId) (n : ExistsNode V) : List TupleId → Stage V (ExistsNode V)
  | [] => return n
  | l :: ls => do detachAll r (← n.detach l r) ls

omit [Cell V] in
/-- Takes a left tuple out of the match sets of the right tuples in `rs`. -/
def unlink (l : TupleId) (rights : Table TupleId (List TupleId)) (rs : List TupleId) :
    Table TupleId (List TupleId) :=
  rs.foldl (fun rights r => rights.modify r (excludeTuple l)) rights

omit [Cell V] in
def link (l : TupleId) (rights : Table TupleId (List TupleId)) (rs : List TupleId) :
    Table TupleId (List TupleId) :=
  rs.foldl (fun rights r => rights.insert r (includeTuple l (rights.getD r []))) rights

/-- Forgets a left tuple, except for the output that it still has. -/
def forgetLeft (n : ExistsNode V) (l : TupleId) : ExistsNode V × Option TupleId :=
  match n.lefts.get? l with
  | none => ({ n with left := n.left.remove l }, none)
  | some entry =>
      ({ n with
          left := n.left.remove l
          lefts := n.lefts.erase l
          rights := unlink l n.rights entry.matched },
        entry.output)

/-- Counts afresh what belongs to a left tuple that has the given output. -/
def countLeft (n : ExistsNode V) (l : TupleId) (output : Option TupleId) (rowChanged : Bool) :
    Stage V (ExistsNode V) := do
  let row ← Stage.rowOf l
  let k ← Stage.ofExcept (n.indexer.leftKey row)
  let matched ← matchingRights n.indexer row (n.right.withKey k)
  let n :=
    { n with
      left := n.left.insert l k
      rights := link l n.rights matched
      lefts := n.lefts.insert l ⟨matched.length, matched, output⟩ }
  n.refreshOutput l rowChanged

def onLeft (n : ExistsNode V) (event : Event) (l : TupleId) : Stage V (ExistsNode V) := do
  match event with
  | .insert => n.countLeft l none false
  | .update =>
      let (n, output) := n.forgetLeft l
      n.countLeft l output true
  | .retract =>
      let (n, output) := n.forgetLeft l
      match output with
      | some out =>
          Stage.retract out
          return n
      | none => return n

def onRight (n : ExistsNode V) (event : Event) (r : TupleId) : Stage V (ExistsNode V) := do
  match event with
  | .insert =>
      let row ← Stage.rowOf r
      let k ← Stage.ofExcept (n.indexer.rightKey row)
      let matched ← matchingLefts n.indexer row (n.left.withKey k)
      let n ← attachAll r { n with right := n.right.insert r k } matched
      return { n with rights := n.rights.insert r matched }
  | .update =>
      let row ← Stage.rowOf r
      let k ← Stage.ofExcept (n.indexer.rightKey row)
      let current ← matchingLefts n.indexer row (n.left.withKey k)
      let previous := n.rights.getD r []
      let n := { n with right := (n.right.remove r).insert r k, rights := n.rights.erase r }
      let n ← detachAll r n (previous.filter (!current.contains ·))
      let n ← attachAll r n (current.filter (!previous.contains ·))
      return { n with rights := n.rights.insert r current }
  | .retract =>
      let previous := n.rights.getD r []
      detachAll r { n with right := n.right.remove r, rights := n.rights.erase r } previous

def onEvent (n : ExistsNode V) (side : Side) (event : Event) (input : TupleId) :
    Stage V (ExistsNode V) :=
  match side with
  | .left => n.onLeft event input
  | .right => n.onRight event input

end ExistsNode

end ConstraintScoring
