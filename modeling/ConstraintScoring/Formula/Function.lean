import ConstraintScoring.Analysis.Match
import ConstraintScoring.Domain
import ConstraintScoring.Formula.Evaluation
import ConstraintScoring.Number.Shortest
import ConstraintScoring.Stream.Group

/-!
# Functions on rows of values

A function is a built-in one, which is known by its name, or a formula of its own. What it answers
is read as the operation expects: as a value, a test, items or a weight.
-/

namespace ConstraintScoring.Formula

instance : Cell Value where
  compare := Value.order
  typeName _ := "Val"
  label := Value.label

/-- The entity a value stands for: a fact is an entity of its own class. -/
def Value.entity (v : Value) : EntityRef :=
  match v.className? with
  | some c => ⟨c, v.label⟩
  | none => .ofCell v

namespace Builtin

def name : Builtin → String
  | firstField field => field
  | lastField field => field ++ "_last"
  | positive => "pos"
  | firstColumn => "c0"
  | lastColumn => "last"
  | always => "true"

end Builtin

inductive Function where
  | builtin (b : Builtin)
  | formula (e : Expression)

namespace Function

def run (f : Function) (row : Row Value) : Except Fault Value :=
  match f with
  | builtin b => .ok (b.eval row)
  | formula e => e.eval row

def name? : Function → Option String
  | builtin b => some b.name
  | formula _ => none

def value (f : Function) : RowFunction Value Value := ⟨f.name?, f.run⟩

/-- The function as one that captures something. -/
def unnamed (f : Function) : RowFunction Value Value := ⟨none, f.run⟩

def test (f : Function) : RowFunction Value Bool := f.value.map Value.asBool

def items (f : Function) : RowFunction Value (List Value) := f.value.map Value.asList

def weight (f : Function) (row : Row Value) : Except Fault MatchWeight := do
  (← f.run row).asWeight

end Function

/-- One column of a grouping. -/
inductive Part where
  | key (f : Function)
  | count
  | countDistinct (f : Function)
  | sum (f : Function)
  | sumDecimal (f : Function)
  | min (f : Function)
  | max (f : Function)
  | average (f : Function)
  | averageDecimal (f : Function)
  | toList (f : Function)
  | toSet (f : Function)

/-- The kinds of columns that are made of a function, by name. -/
def Part.ofName? : String → Option (Function → Part)
  | "key" => some key
  | "count_distinct" => some countDistinct
  | "sum" => some sum
  | "sum_dec" => some sumDecimal
  | "min" => some min
  | "max" => some max
  | "avg" => some average
  | "avg_dec" => some averageDecimal
  | "to_list" => some toList
  | "to_set" => some toSet
  | _ => none

/-- What a collector shows, as a value. -/
def Value.ofCollected : Collected Value → Value
  | .number n => whole (.clamp n)
  | .decimal d => decimal d
  | .mean x => x.elim null float
  | .extreme v => v.getD null
  | .values vs => list vs

/-- Values in brackets, or in braces if they are a set. -/
def collectionLabel (kind : CollectorKind) (vs : List Value) : String :=
  let items := ", ".intercalate (Value.labels vs)
  if kind = .toSet then "\x7b" ++ items ++ "\x7d" else "[" ++ items ++ "]"

/-- How a collector itself shows what it has collected. -/
def collectedLabel (kind : CollectorKind) : Collected Value → String
  | .number n => toString n
  | .decimal d => d.text
  | .mean x => Text.optional (x.map Binary64.shortestText)
  | .extreme v => Text.optional (v.map Value.label)
  | .values vs => collectionLabel kind vs

def Value.present (kind : CollectorKind) (c : Collected Value) : Value :=
  collected (collectedLabel kind c) (ofCollected c)

def wholeContribution (v : Value) : Except Fault (Contribution Value) := do
  return .whole (← v.asWhole).val

def wholeAsDecimal (v : Value) : Except Fault (Contribution Value) := do
  return .decimal (Decimal.ofWhole (← v.asWhole) 0 Decimal.noPlaces)

def decimalContribution (v : Value) : Except Fault (Contribution Value) := do
  return .decimal (← v.asDecimal)

def valueContribution (v : Value) : Except Fault (Contribution Value) := .ok (.value v)

/-- The contribution of a row to a count. -/
def presence : RowFunction Value (Contribution Value) := ⟨some "presence", fun _ => .ok .presence⟩

namespace Part

def collector (kind : CollectorKind) (contribution : RowFunction Value (Contribution Value)) :
    GroupPart Value :=
  .collector ⟨kind, contribution, Value.present kind⟩

def groupPart : Part → GroupPart Value
  | key f => .key f.value
  | count => collector .count presence
  | countDistinct f => collector .countDistinct (f.value.map valueContribution)
  | sum f => collector (.sum (.signed 64)) (f.value.map wholeContribution)
  | sumDecimal f => collector .sumDecimal (f.value.map decimalContribution)
  | min f => collector .min (f.value.map valueContribution)
  | max f => collector .max (f.value.map valueContribution)
  | average f => collector .average (f.value.map wholeAsDecimal)
  | averageDecimal f => collector .average (f.value.map decimalContribution)
  | toList f => collector .toList (f.value.map valueContribution)
  | toSet f => collector .toSet (f.value.map valueContribution)

def isCollector : Part → Bool
  | key _ => false
  | _ => true

/-- How a column of a grouping is turned into a value. -/
inductive Reading where
  | whole
  | decimal
  | other
deriving DecidableEq

def reading : Part → Reading
  | sum _ => .whole
  | sumDecimal _ => .decimal
  | _ => .other

end Part

namespace Part.Reading

/-- The type that a reading expects; the name of the type of decimals is given. -/
def name (decimalType : String) : Reading → String
  | whole => "i64"
  | decimal => decimalType
  | other => "value"

def accepts : Reading → Value → Bool
  | whole, .whole _ => true
  | decimal, .decimal _ => true
  | other, _ => true
  | _, _ => false

def column (decimalType : String) (r : Reading) (index width : Nat) : RowFunction Value Value where
  name := some (r.name decimalType ++ " " ++ toString index)
  run row :=
    let v := (row.getD index .null).content
    if r.accepts v then .ok v
    else
      let expected := r.name decimalType
      .error (.raised s!"column {index} of a {width}-wide tuple is not a {expected}")

end Part.Reading

/-- The columns of a grouping as values; two groupings that are taken for one may still expect
different kinds of sums of it. -/
def Part.columns (decimalType : String) (parts : List Part) : List (RowFunction Value Value) :=
  parts.mapIdx fun i p => p.reading.column decimalType i parts.length

/-- Whether a fact of a planning class has a value for its planning variable. -/
def hasVariable (v : Value) : Except Fault Bool :=
  match v.field? "v" with
  | none => .ok false
  | some .null => .ok false
  | some _ => .ok true

def planningId (v : Value) : Value := v.id?.getD .null

def problemFact (type : String) : FactClass Value := ⟨type, none, planningId⟩

def planningEntity (type : String) (assigned : Value → Except Fault Bool) : FactClass Value :=
  ⟨type, some assigned, planningId⟩

def assignedBy (f : Function) (v : Value) : Except Fault Bool := do (← f.run [v]).asBool

end ConstraintScoring.Formula
