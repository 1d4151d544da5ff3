import ConstraintScoring.Cell
import ConstraintScoring.Fault

/-!
# Functions on rows and the parameters of an operation

A function that captures nothing is known by a name, and the operations of a factory treat equal
names as the same function. Any other function is its own: it gets a number when an operation is
declared with it and is never taken for another.
-/

namespace ConstraintScoring

structure RowFunction (V β : Type) where
  name : Option String
  run : Row V → Except Fault β

def RowFunction.map {V β γ : Type} (f : RowFunction V β) (g : β → Except Fault γ) :
    RowFunction V γ :=
  ⟨f.name, fun row => f.run row >>= g⟩

inductive Side where
  | left
  | right
deriving DecidableEq

inductive FunctionId where
  | named (name : String)
  | own (number : Nat)
deriving DecidableEq

/-- One parameter of a declared operation, as far as its identity goes. -/
inductive Param where
  | function (id : FunctionId)
  | label (text : String)
  | type (name : String)
  | flag (b : Bool)
  | index (n : Nat)
  | side (s : Side)
deriving DecidableEq

/-- Numbering the functions that are not known by a name. -/
abbrev Numbering := StateM Nat

def RowFunction.param {V β : Type} (f : RowFunction V β) : Numbering Param :=
  match f.name with
  | some name => return .function (.named name)
  | none => do
      let n ← get
      set (n + 1)
      return .function (.own n)

end ConstraintScoring
