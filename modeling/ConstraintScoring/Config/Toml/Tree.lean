import ConstraintScoring.Config.Toml.Value

/-!
# The tree of a TOML document

A table of the tree knows how it came about, since that decides what may still be added to it. A
table that stands on the way to another one is implied, and becomes explicit when a header of its
own opens it. A table on the way of a key with points is dotted as well: such keys may add to it,
and headers may not open it.
-/

namespace ConstraintScoring.Toml

inductive Node where
  | value (v : Value)
  | table (implied dotted : Bool) (entries : List (String × Node))
  /-- An array of tables, the last one in front. -/
  | tables (items : List (List (String × Node)))

abbrev Entries := List (String × Node)

def lookup? (key : String) (es : Entries) : Option Node := (es.find? (·.1 == key)).map (·.2)

def put (key : String) (n : Node) : Entries → Entries
  | [] => [(key, n)]
  | e :: es => if e.1 == key then (key, n) :: es else e :: put key n es

/-- Adds an entry below a table, which is `dotted` or not and was reached by a key with points if
it is `inner`. -/
def addEntry (v : Value) (inner dotted : Bool) : List String → Entries → Option Entries
  | [], _ => none
  | [key], es =>
      if (inner && !dotted) || (lookup? key es).isSome then none else some (put key (.value v) es)
  | key :: path, es =>
      match lookup? key es with
      | none => do return put key (.table true true (← addEntry v true true path [])) es
      | some (.table true dotted below) => do
          return put key (.table true dotted (← addEntry v true dotted path below)) es
      | some (.tables (item :: items)) => do
          return put key (.tables ((← addEntry v true false path item) :: items)) es
      | some _ => none

/-- Opens the table of a header. -/
def openTable : List String → Entries → Option Entries
  | [], _ => none
  | [key], es =>
      match lookup? key es with
      | none => some (put key (.table false false []) es)
      | some (.table true false below) => some (put key (.table false false below) es)
      | some _ => none
  | key :: path, es =>
      match lookup? key es with
      | none => do return put key (.table true false (← openTable path [])) es
      | some (.table implied dotted below) => do
          return put key (.table implied dotted (← openTable path below)) es
      | some (.tables (item :: items)) => do
          return put key (.tables ((← openTable path item) :: items)) es
      | some _ => none

/-- Opens one more table of an array of tables. -/
def openItem : List String → Entries → Option Entries
  | [], _ => none
  | [key], es =>
      match lookup? key es with
      | none => some (put key (.tables [[]]) es)
      | some (.tables items) => some (put key (.tables ([] :: items)) es)
      | some _ => none
  | key :: path, es =>
      match lookup? key es with
      | none => do return put key (.table true false (← openItem path [])) es
      | some (.table implied dotted below) => do
          return put key (.table implied dotted (← openItem path below)) es
      | some (.tables (item :: items)) => do
          return put key (.tables ((← openItem path item) :: items)) es
      | some _ => none

/-- Adds an entry below the table that the last header opened. -/
def addBelow (v : Value) (key : List String) : List String → Entries → Option Entries
  | [], es => addEntry v false false key es
  | step :: path, es =>
      match lookup? step es with
      | some (.table implied dotted below) => do
          return put step (.table implied dotted (← addBelow v key path below)) es
      | some (.tables (item :: items)) => do
          return put step (.tables ((← addBelow v key path item) :: items)) es
      | _ => none

mutual

def Node.content : Node → Value
  | .value v => v
  | .table _ _ es => .table (contents es)
  | .tables items => .array (itemContents items).reverse

def contents : List (String × Node) → List (String × Value)
  | [] => []
  | (key, n) :: es => (key, n.content) :: contents es

def itemContents : List (List (String × Node)) → List Value
  | [] => []
  | es :: items => .table (contents es) :: itemContents items

end

end ConstraintScoring.Toml
