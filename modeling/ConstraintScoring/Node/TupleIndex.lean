import ConstraintScoring.Cell
import ConstraintScoring.Table
import ConstraintScoring.Tuple.Arena

/-!
# Indices of tuples by key

One input side of a joining node: the tuples under the keys they came with. Within a key the order
is that of insertion, except that the last tuple takes the place of a removed one.
-/

namespace ConstraintScoring

/-- Puts a tuple at the end of a list unless it is in it. -/
def includeTuple (id : TupleId) (ids : List TupleId) : List TupleId :=
  if ids.contains id then ids else ids ++ [id]

def excludeTuple (id : TupleId) (ids : List TupleId) : List TupleId := removeSwap (· == id) ids

structure TupleIndex (V : Type) where
  keys : Table TupleId (Key V)
  buckets : Table (Key V) (List TupleId)

namespace TupleIndex

variable {V : Type} [Cell V]

def empty : TupleIndex V := ⟨.empty, .empty⟩

def withKey (x : TupleIndex V) (k : Key V) : List TupleId := x.buckets.getD k []

def insert (x : TupleIndex V) (id : TupleId) (k : Key V) : TupleIndex V :=
  ⟨x.keys.insert id k, x.buckets.insert k (includeTuple id (x.withKey k))⟩

def removeFrom (buckets : Table (Key V) (List TupleId)) (id : TupleId) (k : Key V) :
    Table (Key V) (List TupleId) :=
  match buckets.get? k with
  | none => buckets
  | some ids =>
      let rest := excludeTuple id ids
      if rest.isEmpty then buckets.erase k else buckets.insert k rest

def remove (x : TupleIndex V) (id : TupleId) : TupleIndex V :=
  match x.keys.get? id with
  | none => x
  | some k => ⟨x.keys.erase id, removeFrom x.buckets id k⟩

def hasKey (x : TupleIndex V) (id : TupleId) (k : Key V) : Bool :=
  match x.keys.get? id with
  | some l => l == k
  | none => false

end TupleIndex

end ConstraintScoring
