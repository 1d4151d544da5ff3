import ConstraintScoring.Fault
import ConstraintScoring.MatchWeight

/-!
# Scores

A score is a fixed list of whole-number levels, each hard or soft. All arithmetic is level by
level: sums, differences and negations fail when a level leaves its range, products stop at the
ends of the range. Scores are ordered by their first levels that differ.
-/

namespace ConstraintScoring

inductive ScoreLevel where
  | hard
  | soft
deriving DecidableEq

def ScoreLevel.name : ScoreLevel → String
  | hard => "Hard"
  | soft => "Soft"

def Whole.timesWhole (level n : Whole) : Whole := .clamp (level.val * n.val)

class Score (S : Type) where
  levels : List ScoreLevel
  toLevels : S → List Whole
  /-- Missing levels are zero, and levels past the last are ignored. -/
  ofLevels : List Whole → S
  /-- Multiplies every level; a type may do so without the list of its levels. -/
  timesWhole : S → Whole → S := fun s n => ofLevels ((toLevels s).map (·.timesWhole n))
  text : S → String
  debugText : S → String

/-- The levels of a score determine it and can be chosen freely, and they are multiplied one by
one. -/
class LawfulScore (S : Type) [Score S] : Prop where
  ofLevels_toLevels (s : S) : Score.ofLevels (Score.toLevels s) = s
  toLevels_ofLevels (ws : List Whole) (h : ws.length = (Score.levels S).length) :
    Score.toLevels (Score.ofLevels ws : S) = ws
  length_toLevels (s : S) : (Score.toLevels s).length = (Score.levels S).length
  ofLevels_nil : (Score.ofLevels [] : S) = Score.ofLevels ((Score.levels S).map fun _ => 0)
  timesWhole_eq (s : S) (n : Whole) :
    Score.timesWhole s n = Score.ofLevels ((Score.toLevels s).map (·.timesWhole n))

/-- `level * d` rounded to the nearest whole number, halves away from zero, or the end of the range
on the side of the product's sign. -/
def Whole.timesDecimal (level : Whole) (d : Decimal) : Whole :=
  match ((Decimal.ofWhole level 0 Decimal.noPlaces).mul? d).bind fun p => Whole.ofInt? p.round with
  | some w => w
  | none => if decide (level.val < 0) == d.isNegative then .greatest else .least

namespace Score

variable {S : Type} [Score S]

def zero : S := ofLevels []

def same (a b : S) : Bool := toLevels a == toLevels b

/-- The first levels that differ decide. -/
def order (a b : S) : Ordering := List.compareLex compare (toLevels a) (toLevels b)

def isZero (s : S) : Bool := same s zero

/-- Combines two scores level by level. -/
def zipLevels (step : Overflow) (f : Whole → Whole → Option Whole) (a b : S) : Except Overflow S :=
  match (List.zipWith f (toLevels a) (toLevels b)).mapM id with
  | some ws => .ok (ofLevels ws)
  | none => .error step

def add : S → S → Except Overflow S := zipLevels .add Whole.add?

def sub : S → S → Except Overflow S := zipLevels .subtract Whole.sub?

def neg (s : S) : Except Overflow S :=
  match (toLevels s).mapM Whole.neg? with
  | some ws => .ok (ofLevels ws)
  | none => .error .negate

def mapLevels (f : Whole → Whole) (s : S) : S := ofLevels ((toLevels s).map f)

def timesDecimal (s : S) (d : Decimal) : S := mapLevels (·.timesDecimal d) s

def timesWeight (s : S) : MatchWeight → S
  | .whole n => if n = 1 then s else timesWhole s n
  | .decimal d => timesDecimal s d

def isFeasible (s : S) : Bool :=
  ((toLevels s).zip (levels S)).all fun (w, level) => level == .soft || 0 ≤ w.val

def hasHardPart (s : S) : Bool :=
  ((toLevels s).zip (levels S)).any fun (w, level) => level == .hard && w != 0

end Score

end ConstraintScoring
