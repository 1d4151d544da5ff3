import ConstraintScoring.Cell
import ConstraintScoring.Decimal.Basic

/-!
# Values

The values that formulas compute with. They are ordered by kind first, in the order of the
constructors, and then within the kind; decimals are compared as numbers, texts by code points,
lists and facts entry by entry. A fact carries its class, its id and its fields sorted by name.
What a collector shows has a label of its own until it is read as the value it stands for.
-/

namespace ConstraintScoring.Formula

inductive Value where
  | null
  | bool (b : Bool)
  | whole (n : Whole)
  | decimal (d : Decimal)
  | float (x : Binary64)
  | text (s : String)
  | list (vs : List Value)
  | fact (factClass : String) (id : Value) (fields : List (String × Value))
  | collected (label : String) (content : Value)
deriving Inhabited

namespace Value

def rank : Value → Nat
  | null => 0
  | bool _ => 1
  | whole _ => 2
  | decimal _ => 3
  | float _ => 4
  | text _ => 5
  | list _ => 6
  | fact _ _ _ => 7
  | collected _ _ => 8

mutual

def order : Value → Value → Ordering
  | null, null => .eq
  | bool a, bool b => compare a b
  | whole a, whole b => compare a b
  | decimal a, decimal b => compare a b
  | float a, float b => compare a b
  | text a, text b => compare a b
  | list as, list bs => orderList as bs
  | fact c a fs, fact d b gs =>
      (compare c d).then ((order a b).then (orderFields fs gs))
  | collected _ a, collected _ b => order a b
  | a, b => compare a.rank b.rank

def orderList : List Value → List Value → Ordering
  | [], [] => .eq
  | [], _ :: _ => .lt
  | _ :: _, [] => .gt
  | a :: as, b :: bs => (order a b).then (orderList as bs)

def orderFields : List (String × Value) → List (String × Value) → Ordering
  | [], [] => .eq
  | [], _ :: _ => .lt
  | _ :: _, [] => .gt
  | (m, a) :: as, (n, b) :: bs => (compare m n).then ((order a b).then (orderFields as bs))

end

mutual

def label : Value → String
  | null => "null"
  | bool b => if b then "true" else "false"
  | whole n => n.text
  | decimal d => d.text ++ "d"
  | float x => x.text ++ "f"
  | text s => "'" ++ s ++ "'"
  | list vs => "[" ++ ", ".intercalate (labels vs) ++ "]"
  | fact c id fields =>
      c ++ "#" ++ id.label ++ "\x7b" ++ ",".intercalate (fieldLabels fields) ++ "\x7d"
  | collected label _ => label

def labels : List Value → List String
  | [] => []
  | v :: vs => v.label :: labels vs

def fieldLabels : List (String × Value) → List String
  | [] => []
  | (name, v) :: fields => (name ++ "=" ++ v.label) :: fieldLabels fields

end

/-- The text of a value inside a longer text: texts as they are, all else by its label. -/
def bareText : Value → String
  | text s => s
  | v => v.label

/-- Puts a field among fields sorted by name. -/
def insertField (name : String) (v : Value) : List (String × Value) → List (String × Value)
  | [] => [(name, v)]
  | (n, w) :: fields =>
      match compare name n with
      | .lt => (name, v) :: (n, w) :: fields
      | .eq => (n, v) :: fields
      | .gt => (n, w) :: insertField name v fields

def ofFact (factClass : String) (id : Value) (fields : List (String × Value)) : Value :=
  fact factClass id (fields.foldl (fun sorted (name, v) => insertField name v sorted) [])

/-- The value of a field; none of a value that is no fact or has no such field. -/
def field? : Value → String → Option Value
  | fact _ _ fields, name => (fields.find? (·.1 == name)).map (·.2)
  | _, _ => none

/-- The value itself, also of what a collector shows. -/
def content : Value → Value
  | collected _ v => v
  | v => v

def id? : Value → Option Value
  | fact _ id _ => some id
  | _ => none

def className? : Value → Option String
  | fact c _ _ => some c
  | _ => none

end Value

end ConstraintScoring.Formula
