import ConstraintScoring.Score.Text

/-!
# Scores with one soft level
-/

namespace ConstraintScoring

structure SimpleScore where
  score : Whole
deriving DecidableEq

namespace SimpleScore

def grammar : LevelGrammar := ⟨"SimpleScore", [⟨"score", ""⟩]⟩

instance : ReadableScore SimpleScore where
  levels := [.soft]
  toLevels s := [s.score]
  ofLevels ws := ⟨ws.headD 0⟩
  timesWhole s n := ⟨s.score.timesWhole n⟩
  text s := grammar.write [s.score]
  debugText s := grammar.debug [s.score]
  read cs := do return ⟨(← grammar.read cs).headD 0⟩

instance : LawfulScore SimpleScore where
  ofLevels_toLevels _ := rfl
  toLevels_ofLevels ws h := by
    change ws.length = 1 at h
    rcases ws with _ | ⟨a, _ | ⟨b, ws⟩⟩ <;> simp_all
    rfl
  length_toLevels _ := rfl
  ofLevels_nil := rfl
  timesWhole_eq _ _ := rfl

def one : SimpleScore := ⟨1⟩

end SimpleScore

end ConstraintScoring
