import ConstraintScoring.Stream.Function

/-!
# Joiners

A joiner says which rows of a left and a right stream belong together. It compiles to keys, which
must be equal, and conditions, which are tried in order on rows with equal keys.
-/

namespace ConstraintScoring

inductive Comparison where
  | less
  | lessEqual
  | greater
  | greaterEqual
deriving DecidableEq

namespace Comparison

def label : Comparison → String
  | less => "less_than"
  | lessEqual => "less_than_or_equal"
  | greater => "greater_than"
  | greaterEqual => "greater_than_or_equal"

def ofName? : String → Option Comparison
  | "lt" => some less
  | "le" => some lessEqual
  | "gt" => some greater
  | "ge" => some greaterEqual
  | _ => none

def accepts : Comparison → Ordering → Bool
  | less, o => o == .lt
  | lessEqual, o => o != .gt
  | greater, o => o == .gt
  | greaterEqual, o => o != .lt

end Comparison

inductive Joiner (V : Type) where
  /-- Accepts every pair. -/
  | all
  | equal (left right : RowFunction V V)
  | compare (c : Comparison) (left right : RowFunction V V)
  /-- The intervals from start up to but not including end have a common point. -/
  | overlapping (leftStart leftEnd rightStart rightEnd : RowFunction V V)
  | filtering (accepts : RowFunction V Bool)
  | and (first second : Joiner V)

abbrev PairCondition (V : Type) := Row V → Row V → Except Fault Bool

/-- A compiled joiner. -/
structure JoinIndexer (V : Type) where
  left : List (Row V → Except Fault V)
  right : List (Row V → Except Fault V)
  conditions : List (PairCondition V)

namespace JoinIndexer

variable {V : Type}

def merge (a b : JoinIndexer V) : JoinIndexer V :=
  ⟨a.left ++ b.left, a.right ++ b.right, a.conditions ++ b.conditions⟩

def leftKey (j : JoinIndexer V) (row : Row V) : Except Fault (Key V) := do
  return ⟨← j.left.mapM (· row)⟩

def rightKey (j : JoinIndexer V) (row : Row V) : Except Fault (Key V) := do
  return ⟨← j.right.mapM (· row)⟩

def key (j : JoinIndexer V) : Side → Row V → Except Fault (Key V)
  | .left => j.leftKey
  | .right => j.rightKey

/-- Tries the conditions in order up to the first that fails. -/
def allHold : List (PairCondition V) → PairCondition V
  | [], _, _ => .ok true
  | c :: cs, l, r => do if ← c l r then allHold cs l r else return false

def accepts (j : JoinIndexer V) : PairCondition V := allHold j.conditions

end JoinIndexer

namespace Joiner

variable {V : Type} [Cell V]

def compareCondition (c : Comparison) (left right : RowFunction V V) : PairCondition V :=
  fun l r => do
    let a ← left.run l
    let b ← right.run r
    return c.accepts (Ord.compare a b)

def overlapCondition (leftStart leftEnd rightStart rightEnd : RowFunction V V) :
    PairCondition V :=
  fun l r => do
    let ls ← leftStart.run l
    let re ← rightEnd.run r
    if Ord.compare ls re == .lt then
      let rs ← rightStart.run r
      let le ← leftEnd.run l
      return Ord.compare rs le == .lt
    else return false

def compile : Joiner V → JoinIndexer V
  | all => ⟨[], [], []⟩
  | equal left right => ⟨[left.run], [right.run], []⟩
  | compare c left right => ⟨[], [], [compareCondition c left right]⟩
  | overlapping ls le rs re => ⟨[], [], [overlapCondition ls le rs re]⟩
  | filtering accepts => ⟨[], [], [fun l r => accepts.run (l ++ r)]⟩
  | and first second => first.compile.merge second.compile

/-- What identifies the joiner among the parameters of an operation. -/
def params : Joiner V → Numbering (List Param)
  | all => return []
  | equal left right => do return [.label "equal", ← left.param, ← right.param]
  | compare c left right => do return [.label c.label, ← left.param, ← right.param]
  | overlapping ls le rs re => do
      return [.label "overlapping", ← ls.param, ← le.param, ← rs.param, ← re.param]
  | filtering accepts => do return [.label "filtering", ← accepts.param]
  | and first second => do return .label "and" :: (← first.params) ++ (← second.params)

end Joiner

end ConstraintScoring
