import ConstraintScoring.Score.Text

/-!
# Scores with a hard and a soft level
-/

namespace ConstraintScoring

structure HardSoftScore where
  hard : Whole
  soft : Whole
deriving DecidableEq

namespace HardSoftScore

def grammar : LevelGrammar := ⟨"HardSoftScore", [⟨"hard", "hard"⟩, ⟨"soft", "soft"⟩]⟩

instance : ReadableScore HardSoftScore where
  levels := [.hard, .soft]
  toLevels s := [s.hard, s.soft]
  ofLevels ws := ⟨ws.headD 0, ws.tail.headD 0⟩
  timesWhole s n := ⟨s.hard.timesWhole n, s.soft.timesWhole n⟩
  text s := grammar.write [s.hard, s.soft]
  debugText s := grammar.debug [s.hard, s.soft]
  read cs := do
    let ws ← grammar.read cs
    return ⟨ws.headD 0, ws.tail.headD 0⟩

instance : LawfulScore HardSoftScore where
  ofLevels_toLevels _ := rfl
  toLevels_ofLevels ws h := by
    change ws.length = 2 at h
    rcases ws with _ | ⟨a, _ | ⟨b, _ | ⟨c, ws⟩⟩⟩ <;> simp_all
    rfl
  length_toLevels _ := rfl
  ofLevels_nil := rfl
  timesWhole_eq _ _ := rfl

def oneHard : HardSoftScore := ⟨1, 0⟩

def oneSoft : HardSoftScore := ⟨0, 1⟩

end HardSoftScore

end ConstraintScoring
