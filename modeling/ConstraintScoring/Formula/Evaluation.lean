import ConstraintScoring.Decimal.Arithmetic
import ConstraintScoring.Fault
import ConstraintScoring.Formula.Value
import ConstraintScoring.MatchWeight

/-!
# Formulas

A formula computes a value from a row. Arguments are evaluated from left to right, and the first
fault ends the evaluation; `both`, `either` and `choose` evaluate only what they need.
-/

namespace ConstraintScoring.Formula

inductive Arithmetic where
  | plus
  | minus
  | times
  | quotient
  | remainder
deriving DecidableEq

def Arithmetic.symbol : Arithmetic → String
  | .plus => "+"
  | .minus => "-"
  | .times => "*"
  | .quotient => "/"
  | .remainder => "%"

def Arithmetic.ofSymbol? : String → Option Arithmetic
  | "+" => some .plus
  | "-" => some .minus
  | "*" => some .times
  | "/" => some .quotient
  | "%" => some .remainder
  | _ => none

inductive Relation where
  | less
  | lessEqual
  | greater
  | greaterEqual
  | equal
  | unequal
deriving DecidableEq

def Relation.holds : Relation → Ordering → Bool
  | .less, o => o == .lt
  | .lessEqual, o => o != .gt
  | .greater, o => o == .gt
  | .greaterEqual, o => o != .lt
  | .equal, o => o == .eq
  | .unequal, o => o != .eq

def Relation.ofSymbol? : String → Option Relation
  | "<" => some .less
  | "<=" => some .lessEqual
  | ">" => some .greater
  | ">=" => some .greaterEqual
  | "=" => some .equal
  | "!=" => some .unequal
  | _ => none

inductive Expression where
  | column (i : Nat)
  | field (i : Nat) (name : String)
  | id (i : Nat)
  | constant (v : Value)
  | arithmetic (op : Arithmetic) (a b : Expression)
  | relation (r : Relation) (a b : Expression)
  | both (a b : Expression)
  | either (a b : Expression)
  | not (a : Expression)
  | choose (condition a b : Expression)
  | length (a : Expression)
  | list (as : List Expression)
  | range (a b : Expression)
  | concat (as : List Expression)
  | toDecimal (a : Expression)
  | fail (a : Expression)
  | failWith (message : String)
  | failWordless

namespace Value

def asBool (v : Value) : Except Fault Bool :=
  match v with
  | bool b => .ok b
  | v => .error (.raised (v.label ++ " is not a bool"))

def asWhole (v : Value) : Except Fault Whole :=
  match v with
  | whole n => .ok n
  | v => .error (.raised (v.label ++ " is not an int"))

def asDecimal (v : Value) : Except Fault Decimal :=
  match v with
  | whole n => .ok (Decimal.ofWhole n 0 Decimal.noPlaces)
  | decimal d => .ok d
  | v => .error (.raised (v.label ++ " is not a number"))

def asList (v : Value) : Except Fault (List Value) :=
  match v with
  | list vs => .ok vs
  | v => .error (.raised (v.label ++ " is not a list"))

def asWeight (v : Value) : Except Fault MatchWeight :=
  match v with
  | whole n => .ok (.whole n)
  | decimal d => .ok (.decimal d)
  | v => .error (.raised (v.label ++ " is not a weight"))

def length (v : Value) : Except Fault Value :=
  let size (n : Nat) : Value := whole (.clamp n)
  match v with
  | list vs => .ok (size vs.length)
  | text s => .ok (size s.length)
  | v => .error (.raised (v.label ++ " has no length"))

def overflow (op : Arithmetic) : Fault := .raised ("overflow in " ++ op.symbol)

def wholeArithmetic (op : Arithmetic) (a b : Whole) : Except Fault Value :=
  let result (n : Int) : Except Fault Value :=
    match Whole.ofInt? n with
    | some w => .ok (whole w)
    | none => .error (overflow op)
  match op with
  | .plus => result (a.val + b.val)
  | .minus => result (a.val - b.val)
  | .times => result (a.val * b.val)
  | .quotient =>
      if b.val = 0 then .error (.raised "division by zero") else result (a.val.tdiv b.val)
  | .remainder =>
      if b.val = 0 then .error (.raised "division by zero")
      else if a = .least ∧ b.val = -1 then .error (overflow op)
      else result (a.val.tmod b.val)

def incompatible (op : Arithmetic) (a b : Value) : Fault :=
  .raised ("cannot compute " ++ a.label ++ " " ++ op.symbol ++ " " ++ b.label)

def decimalArithmetic (op : Arithmetic) (a b : Decimal) : Except Fault Value :=
  let result (d : Option Decimal) : Except Fault Value :=
    match d with
    | some d => .ok (decimal d)
    | none => .error (overflow op)
  match op with
  | .plus => result (a.add? b)
  | .minus => result (a.sub? b)
  | .times => result (a.mul? b)
  | op => .error (incompatible op (decimal a) (decimal b))

def arithmetic (op : Arithmetic) (a b : Value) : Except Fault Value :=
  match a, b with
  | whole m, whole n => wholeArithmetic op m n
  | decimal c, decimal d => decimalArithmetic op c d
  | a, b => .error (incompatible op a b)

/-- The integers from `a` up to but not including `b`. -/
def range (a b : Value) : Except Fault Value :=
  match a, b with
  | whole m, whole n =>
      let numbers := List.range (n.val - m.val).toNat
      .ok (list (numbers.map fun (k : Nat) => whole (.clamp (m.val + (k : Int)))))
  | _, _ => .error (.raised "range needs ints")

end Value

def columnAt (row : Row Value) (i : Nat) : Except Fault Value :=
  match row[i]? with
  | some v => .ok v
  | none => .error (.raised ("no column " ++ toString i))

def factAt (row : Row Value) (i : Nat) : Except Fault Value := do
  let v ← columnAt row i
  match v with
  | .fact _ _ _ => return v
  | _ => throw (.raised ("column " ++ toString i ++ " is not a fact"))

namespace Expression

mutual

def eval (row : Row Value) : Expression → Except Fault Value
  | column i => columnAt row i
  | field i name => do
      let v ← factAt row i
      return (v.field? name).getD .null
  | id i => do
      let v ← factAt row i
      return v.id?.getD .null
  | constant v => .ok v
  | arithmetic op a b => do
      let x ← eval row a
      let y ← eval row b
      x.arithmetic op y
  | relation r a b => do
      let x ← eval row a
      let y ← eval row b
      return .bool (r.holds (x.order y))
  | both a b => do
      let x ← eval row a
      if ← x.asBool then
        let y ← eval row b
        return .bool (← y.asBool)
      else return .bool false
  | either a b => do
      let x ← eval row a
      if ← x.asBool then return .bool true
      else
        let y ← eval row b
        return .bool (← y.asBool)
  | not a => do
      let x ← eval row a
      return .bool (!(← x.asBool))
  | choose condition a b => do
      let x ← eval row condition
      if ← x.asBool then eval row a else eval row b
  | length a => do
      let x ← eval row a
      x.length
  | list as => do return .list (← evalAll row as)
  | range a b => do
      let x ← eval row a
      let y ← eval row b
      x.range y
  | concat as => do return .text (String.join ((← evalAll row as).map Value.bareText))
  | toDecimal a => do
      let x ← eval row a
      return .decimal (← x.asDecimal)
  | fail a => do
      let x ← eval row a
      throw (.raised x.bareText)
  | failWith message => .error (.raised message)
  | failWordless => .error .wordless

def evalAll (row : Row Value) : List Expression → Except Fault (List Value)
  | [] => .ok []
  | a :: as => do
      let x ← eval row a
      return x :: (← evalAll row as)

end

end Expression

/-- The functions of a row that are known by a name. -/
inductive Builtin where
  | firstField (name : String)
  | lastField (name : String)
  | positive
  | firstColumn
  | lastColumn
  | always
deriving DecidableEq

namespace Builtin

def ofName? : String → Option Builtin
  | "g" => some (firstField "g")
  | "s" => some (firstField "s")
  | "v" => some (firstField "v")
  | "g_last" => some (lastField "g")
  | "s_last" => some (lastField "s")
  | "pos" => some positive
  | "c0" => some firstColumn
  | "last" => some lastColumn
  | "true" => some always
  | _ => none

def eval (row : Row Value) : Builtin → Value
  | firstField name => ((row.head?).bind (·.field? name)).getD .null
  | lastField name => ((row.getLast?).bind (·.field? name)).getD .null
  | positive =>
      let s := ((row.head?).bind (·.field? "s")).getD .null
      .bool (s.order (.whole 0) == .gt)
  | firstColumn => row.headD .null
  | lastColumn => row.getLastD .null
  | always => .bool true

end Builtin

end ConstraintScoring.Formula
