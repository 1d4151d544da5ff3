import ConstraintScoring.Cell
import ConstraintScoring.Fault

/-!
# Tuples

A tuple is a row in a slot of the arena of its session. A change of a tuple is staged first: it
shows in the state of the tuple, and the tuple waits in the queue of the node that made it.
Beginning to propagate a tuple turns the staged change into the event its readers see. A slot that
is free again is the next to be used.
-/

namespace ConstraintScoring

abbrev TupleId := Nat

inductive TupleState where
  /-- Made, and not yet seen by a reader. -/
  | creating
  | ok
  /-- Changed since a reader last saw it. -/
  | updating
  /-- To be taken back from the readers that saw it. -/
  | dying
  /-- Taken back before a reader saw it. -/
  | aborting
  | dead
deriving DecidableEq

namespace TupleState

def isActive : TupleState → Bool
  | creating | ok | updating => true
  | dying | aborting | dead => false

def name : TupleState → String
  | creating => "Creating"
  | ok => "Ok"
  | updating => "Updating"
  | dying => "Dying"
  | aborting => "Aborting"
  | dead => "Dead"

def all : List TupleState := [creating, ok, updating, dying, aborting, dead]

end TupleState

inductive Event where
  | insert
  | update
  | retract
deriving DecidableEq

structure Slot (V : Type) where
  row : Row V
  state : TupleState

structure Arena (V : Type) where
  slots : Array (Slot V)
  /-- The free slots, the one freed last in front. -/
  free : List TupleId
  live : Nat

namespace Arena

variable {V : Type}

def empty : Arena V := ⟨#[], [], 0⟩

def row (a : Arena V) (id : TupleId) : Row V :=
  match a.slots[id]? with
  | some slot => slot.row
  | none => []

def state (a : Arena V) (id : TupleId) : TupleState :=
  match a.slots[id]? with
  | some slot => slot.state
  | none => .dead

def put (a : Arena V) (id : TupleId) (slot : Slot V) : Arena V :=
  { a with slots := a.slots.setIfInBounds id slot }

def setState (a : Arena V) (id : TupleId) (s : TupleState) : Arena V := a.put id ⟨a.row id, s⟩

/-- Makes a tuple in the slot freed last, or in a new slot. -/
def create (a : Arena V) (row : Row V) : TupleId × Arena V :=
  match a.free with
  | id :: free => (id, { a.put id ⟨row, .creating⟩ with free, live := a.live + 1 })
  | [] =>
      (a.slots.size, { a with slots := a.slots.push ⟨row, .creating⟩, live := a.live + 1 })

def release (a : Arena V) (id : TupleId) : Arena V :=
  { a.put id ⟨[], .dead⟩ with free := id :: a.free, live := a.live - 1 }

/-- Turns the staged change of a tuple into an event. -/
def begin (a : Arena V) (id : TupleId) : Option Event × Arena V :=
  match a.state id with
  | .creating => (some .insert, a.setState id .ok)
  | .updating => (some .update, a.setState id .ok)
  | .dying => (some .retract, a.setState id .dead)
  | .aborting => (none, a.release id)
  | .ok | .dead => (none, a)

end Arena

/-- What a node works on besides its own books: the arena and its queue. -/
structure Staging (V : Type) where
  arena : Arena V
  queue : Array TupleId

/-- Work of a node; what was staged before a fault stays staged. -/
abbrev Stage (V : Type) := ExceptT Fault (StateM (Staging V))

namespace Stage

variable {V : Type}

def ofExcept {α : Type} (x : Except Fault α) : Stage V α := ExceptT.mk (pure x)

def rowOf (id : TupleId) : Stage V (Row V) := do return (← get).arena.row id

def insert (row : Row V) : Stage V TupleId := do
  let s ← get
  let (id, arena) := s.arena.create row
  set (Staging.mk arena (s.queue.push id))
  return id

def inactive (change : String) (s : TupleState) : Fault :=
  .defect (change ++ " of a " ++ s.name ++ " tuple")

/-- Replaces the row of a tuple at once; readers hear of it when the tuple propagates. -/
def update (id : TupleId) (row : Row V) : Stage V Unit := do
  let s ← get
  match s.arena.state id with
  | .ok => set (Staging.mk (s.arena.put id ⟨row, .updating⟩) (s.queue.push id))
  | .creating => set { s with arena := s.arena.put id ⟨row, .creating⟩ }
  | .updating => set { s with arena := s.arena.put id ⟨row, .updating⟩ }
  | state => throw (inactive "update" state)

def retract (id : TupleId) : Stage V Unit := do
  let s ← get
  match s.arena.state id with
  | .ok => set (Staging.mk (s.arena.setState id .dying) (s.queue.push id))
  | .updating => set { s with arena := s.arena.setState id .dying }
  | .creating => set { s with arena := s.arena.setState id .aborting }
  | state => throw (inactive "retract" state)

def retractAll : List TupleId → Stage V Unit
  | [] => return ()
  | id :: ids => do
      retract id
      retractAll ids

end Stage

end ConstraintScoring
