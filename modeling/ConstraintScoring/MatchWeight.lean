import ConstraintScoring.Decimal.Arithmetic

/-!
# Match weights

How heavily one match counts: a whole number or a decimal, by which the constraint's weight is
multiplied.
-/

namespace ConstraintScoring

inductive MatchWeight where
  | whole (n : Whole)
  | decimal (d : Decimal)

namespace MatchWeight

def one : MatchWeight := .whole 1

instance : Inhabited MatchWeight := ⟨one⟩

/-- An integer of any width; one above the range counts as the greatest whole number. -/
def ofInt (n : Int) : MatchWeight := .whole ((Whole.ofInt? n).getD .greatest)

def isZero : MatchWeight → Bool
  | .whole n => n == 0
  | .decimal d => d.isZero

instance : BEq MatchWeight where
  beq
    | .whole m, .whole n => m == n
    | .decimal c, .decimal d => c == d
    | _, _ => false

def text : MatchWeight → String
  | .whole n => n.text
  | .decimal d => d.text

def debugText : MatchWeight → String
  | .whole n => "Int(" ++ n.text ++ ")"
  | .decimal d => "Decimal(" ++ d.text ++ ")"

end MatchWeight

end ConstraintScoring
