/-!
# Cells, rows and keys

A cell is one column of a row. Cells are compared by value; two equal cells may still be shown
differently, and every cell knows the type it is shown with. A key is a list of cells compared
cell by cell.
-/

namespace ConstraintScoring

class Cell (V : Type) extends Ord V where
  typeName : V → String
  label : V → String

abbrev Row (V : Type) := List V

namespace Cell

variable {V : Type} [Cell V]

def same (a b : V) : Bool := compare a b == .eq

def sameAll : List V → List V → Bool
  | [], [] => true
  | a :: as, b :: bs => same a b && sameAll as bs
  | _, _ => false

def rowLabel (row : Row V) : String := "[" ++ ", ".intercalate (row.map label) ++ "]"

end Cell

structure Key (V : Type) where
  cells : List V

instance {V : Type} [Cell V] : BEq (Key V) := ⟨fun a b => Cell.sameAll a.cells b.cells⟩

end ConstraintScoring
