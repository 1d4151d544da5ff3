import ConstraintScoring.Stream.Group
import ConstraintScoring.Table
import ConstraintScoring.Tuple.Arena

/-!
# Groups

One output for each group that has a member: the keys as its first member gave them, followed by
what the collectors show. What a member contributed is kept, so that it can be taken back exactly.
-/

namespace ConstraintScoring

structure GroupEntry (V : Type) where
  keyCells : List V
  size : Nat
  accumulators : List (Accumulator V)
  output : Option TupleId

structure GroupMember (V : Type) where
  key : Key V
  contributions : List (Contribution V)

structure GroupNode (V : Type) where
  keys : List (Row V → Except Fault V)
  collectors : List (Collector V)
  groups : Table (Key V) (GroupEntry V)
  members : Table TupleId (GroupMember V)
  /-- The reset accumulators of groups that are gone, the last one in front. -/
  spare : List (List (Accumulator V))

namespace GroupNode

variable {V : Type} [Cell V]

def new (keys : List (Row V → Except Fault V)) (collectors : List (Collector V)) : GroupNode V :=
  ⟨keys, collectors, .empty, .empty, []⟩

def member (n : GroupNode V) (row : Row V) : Except Fault (GroupMember V) := do
  let cells ← n.keys.mapM (· row)
  let contributions ← n.collectors.mapM (·.contribution.run row)
  return ⟨⟨cells⟩, contributions⟩

def accumulateAll : List (Accumulator V) → List (Contribution V) →
    Except Fault (List (Accumulator V))
  | a :: as, c :: cs => do
      let a ← a.accumulate c
      return a :: (← accumulateAll as cs)
  | as, _ => .ok as

def retractAll : List (Accumulator V) → List (Contribution V) →
    Except Fault (List (Accumulator V))
  | a :: as, c :: cs => do
      let a ← a.retract c
      return a :: (← retractAll as cs)
  | as, _ => .ok as

/-- Accumulators for a new group, and what is left of the spare ones. -/
def takeAccumulators (n : GroupNode V) : List (Accumulator V) × List (List (Accumulator V)) :=
  match n.spare with
  | accumulators :: spare => (accumulators, spare)
  | [] => (n.collectors.map fun c => .new c.kind, [])

/-- Adds a member to its group, which is made if it is the first one. -/
def foldIn (n : GroupNode V) (input : TupleId) (m : GroupMember V) :
    Except Fault (GroupNode V) := do
  let (entry, spare) :=
    match n.groups.get? m.key with
    | some entry => (entry, n.spare)
    | none =>
        let (accumulators, spare) := n.takeAccumulators
        (⟨m.key.cells, 0, accumulators, none⟩, spare)
  let accumulators ← accumulateAll entry.accumulators m.contributions
  return { n with
    spare
    groups := n.groups.insert m.key { entry with accumulators, size := entry.size + 1 }
    members := n.members.insert input m }

def foldOut (n : GroupNode V) (m : GroupMember V) : Except Fault (GroupNode V) := do
  match n.groups.get? m.key with
  | none => throw (.defect "input of a missing group")
  | some entry =>
      let accumulators ← retractAll entry.accumulators m.contributions
      return { n with
        groups := n.groups.insert m.key { entry with accumulators, size := entry.size - 1 } }

/-- The row a group shows. -/
def rowOf (n : GroupNode V) (entry : GroupEntry V) : Row V :=
  entry.keyCells ++
    List.zipWith (fun c a => c.present a.finish) n.collectors entry.accumulators

/-- Brings the output of a group in line with its members. -/
def refresh (n : GroupNode V) (k : Key V) : Stage V (GroupNode V) := do
  match n.groups.get? k with
  | none => return n
  | some entry =>
      if entry.size = 0 then
        match entry.output with
        | some out => Stage.retract out
        | none => pure ()
        return { n with
          groups := n.groups.erase k
          spare := entry.accumulators.map (·.reset) :: n.spare }
      else
        match entry.output with
        | some out =>
            Stage.update out (n.rowOf entry)
            return n
        | none =>
            let out ← Stage.insert (n.rowOf entry)
            return { n with groups := n.groups.insert k { entry with output := some out } }

def add (n : GroupNode V) (input : TupleId) : Stage V (GroupNode V) := do
  let m ← Stage.ofExcept (n.member (← Stage.rowOf input))
  let n ← Stage.ofExcept (n.foldIn input m)
  n.refresh m.key

def onEvent (n : GroupNode V) (event : Event) (input : TupleId) : Stage V (GroupNode V) := do
  match event with
  | .insert => n.add input
  | .update =>
      match n.members.get? input with
      | none => n.add input
      | some previous =>
          let n ← Stage.ofExcept ({ n with members := n.members.erase input }.foldOut previous)
          let m ← Stage.ofExcept (n.member (← Stage.rowOf input))
          let n ← Stage.ofExcept (n.foldIn input m)
          let n ← if m.key == previous.key then pure n else n.refresh previous.key
          n.refresh m.key
  | .retract =>
      match n.members.get? input with
      | none => return n
      | some previous =>
          let n ← Stage.ofExcept ({ n with members := n.members.erase input }.foldOut previous)
          n.refresh previous.key

end GroupNode

end ConstraintScoring
