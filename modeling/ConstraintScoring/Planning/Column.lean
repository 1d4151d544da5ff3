import ConstraintScoring.Collector.Accumulator
import ConstraintScoring.Stream.Function
import ConstraintScoring.Text.Escaped

/-!
# Typed columns

What planning problems with columns of several types have in common: how absent and present values
are shown, functions that are not shared, and what happens when a column is not of the type that
a function expects.
-/

namespace ConstraintScoring.Planning

def listLabel (items : List String) : String := "[" ++ ", ".intercalate items ++ "]"

def optionCode (o : Option Nat) : List Nat :=
  match o with
  | none => [0]
  | some n => [1, n]

def textCode (s : String) : List Nat := s.length :: s.toList.map Char.toNat

def textsCode (ss : List String) : List Nat := ss.length :: ss.flatMap textCode

def compareCodes (a b : List Nat) : Ordering := List.compareLex compare a b

def unexpectedColumn {α : Type} : Except Fault α := .error (.defect "column of another type")

/-- A function that no other one is taken for. -/
def own {V β : Type} (run : Row V → Except Fault β) : RowFunction V β := ⟨none, run⟩

/-- A function that is shared under its name. -/
def shared {V β : Type} (name : String) (run : Row V → Except Fault β) : RowFunction V β :=
  ⟨some name, run⟩

def presence {V : Type} : RowFunction V (Contribution V) := own fun _ => .ok .presence

/-- The numbers that are held in 32 bits. -/
def word : IntRange := .unsigned 32

def checked (step : Overflow) (range : IntRange) (n : Int) : Except Fault Int :=
  if range.Contains n then .ok n else .error (.overflow step)

end ConstraintScoring.Planning
