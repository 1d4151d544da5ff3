import ConstraintScoring.Collector.Tally
import ConstraintScoring.Decimal.Arithmetic
import ConstraintScoring.Fault

/-!
# Accumulators

An accumulator holds what a collector knows of the values it has been given and not had taken
back: their number, sum, mean, least or greatest, or the values themselves. Integer and decimal
sums fail when they leave their range.
-/

namespace ConstraintScoring

inductive CollectorKind where
  | count
  | sum (range : IntRange)
  | sumDecimal
  | average
  | min
  | max
  | countDistinct
  | toSet
  | toList
deriving DecidableEq

/-- A kind by name; the name of a sum ends with the range that the sum must stay in. -/
def CollectorKind.ofName? (name : String) : Option CollectorKind :=
  match name, name.toList with
  | "count", _ => some count
  | "sum_dec", _ => some sumDecimal
  | "sum_usize", _ => some (sum (.unsigned 64))
  | "avg_i64", _ => some average
  | "avg_dec", _ => some average
  | "min", _ => some min
  | "max", _ => some max
  | "count_distinct", _ => some countDistinct
  | "to_set", _ => some toSet
  | "to_list", _ => some toList
  | _, 's' :: 'u' :: 'm' :: '_' :: range => (IntRange.ofName? range).map sum
  | _, _ => none

/-- What one row gives to a collector. -/
inductive Contribution (V : Type) where
  | presence
  | whole (n : Int)
  | decimal (d : Decimal)
  | value (v : V)

inductive Accumulator (V : Type) where
  | count (n : Nat)
  | sum (range : IntRange) (total : Int)
  | sumDecimal (total : Decimal)
  | average (total : Decimal) (n : Nat)
  | min (tally : Tally V)
  | max (tally : Tally V)
  | countDistinct (tally : Tally V)
  | toSet (tally : Tally V)
  | toList (values : SortedList V)

/-- What an accumulator shows. -/
inductive Collected (V : Type) where
  | number (n : Int)
  | decimal (d : Decimal)
  | mean (x : Option Binary64)
  | extreme (v : Option V)
  | values (vs : List V)

namespace Accumulator

variable {V : Type} [Cell V]

def new : CollectorKind → Accumulator V
  | .count => count 0
  | .sum range => sum range 0
  | .sumDecimal => sumDecimal .zero
  | .average => average .zero 0
  | .min => min .empty
  | .max => max .empty
  | .countDistinct => countDistinct .empty
  | .toSet => toSet .empty
  | .toList => toList .empty

/-- Forgets everything accumulated. -/
def reset : Accumulator V → Accumulator V
  | count _ => new .count
  | sum range _ => new (.sum range)
  | sumDecimal _ => new .sumDecimal
  | average _ _ => new .average
  | min _ => new .min
  | max _ => new .max
  | countDistinct _ => new .countDistinct
  | toSet _ => new .toSet
  | toList _ => new .toList

def foreign : Except Fault (Accumulator V) := .error (.defect "collected value of a foreign type")

def inRange (range : IntRange) (step : Overflow) (n : Int) : Except Fault (Accumulator V) :=
  if range.Contains n then .ok (sum range n) else .error (.overflow step)

def addDecimal (total d : Decimal) : Except Fault Decimal :=
  match total.add? d with
  | some d => .ok d
  | none => .error (.raised "Addition overflowed")

def subtractDecimal (total d : Decimal) : Except Fault Decimal :=
  match total.sub? d with
  | some d => .ok d
  | none => .error (.raised "Subtraction overflowed")

def accumulate : Accumulator V → Contribution V → Except Fault (Accumulator V)
  | count n, .presence => .ok (count (n + 1))
  | sum range total, .whole n => inRange range .add (total + n)
  | sumDecimal total, .decimal d => do return sumDecimal (← addDecimal total d)
  | average total n, .decimal d => do return average (← addDecimal total d) (n + 1)
  | min tally, .value v => .ok (min (tally.insert v))
  | max tally, .value v => .ok (max (tally.insert v))
  | countDistinct tally, .value v => .ok (countDistinct (tally.insert v))
  | toSet tally, .value v => .ok (toSet (tally.insert v))
  | toList values, .value v => .ok (toList (values.insert v))
  | _, _ => foreign

def retract : Accumulator V → Contribution V → Except Fault (Accumulator V)
  | count n, .presence => .ok (count (n - 1))
  | sum range total, .whole n => inRange range .subtract (total - n)
  | sumDecimal total, .decimal d => do return sumDecimal (← subtractDecimal total d)
  | average total n, .decimal d => do return average (← subtractDecimal total d) (n - 1)
  | min tally, .value v => .ok (min (tally.remove v))
  | max tally, .value v => .ok (max (tally.remove v))
  | countDistinct tally, .value v => .ok (countDistinct (tally.remove v))
  | toSet tally, .value v => .ok (toSet (tally.remove v))
  | toList values, .value v => .ok (toList (values.remove v))
  | _, _ => foreign

/-- The mean of `n` numbers with the given sum; none of no numbers. -/
def mean? (total : Decimal) (n : Nat) : Option Binary64 :=
  if n = 0 then none else (total.divCount? n).map Decimal.toBinary64

def finish : Accumulator V → Collected V
  | count n => .number n
  | sum _ total => .number total
  | sumDecimal total => .decimal total
  | average total n => .mean (mean? total n)
  | min tally => .extreme tally.least?
  | max tally => .extreme tally.greatest?
  | countDistinct tally => .number tally.values.length
  | toSet tally => .values tally.values
  | toList values => .values values.values

end Accumulator

end ConstraintScoring
