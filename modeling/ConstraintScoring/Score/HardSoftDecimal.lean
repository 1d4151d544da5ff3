import ConstraintScoring.Score.Text

/-!
# Scores with a hard and a soft level of five decimal places

A level is held as a whole number of hundred-thousandths. Reading rounds what lies past the fifth
place to the nearest hundred-thousandth, halves away from zero.
-/

namespace ConstraintScoring

structure HardSoftDecimalScore where
  hardScaled : Whole
  softScaled : Whole
deriving DecidableEq

namespace HardSoftDecimalScore

def scale : Whole := ⟨100000, by decide, by decide⟩

/-- A decimal as a number of hundred-thousandths, if it is in range. -/
def toScaled? (d : Decimal) : Option Whole :=
  (d.mul? (Decimal.ofWhole scale 0 Decimal.noPlaces)).bind fun p => Whole.ofInt? p.round

def ofDecimal? (hard soft : Decimal) : Option HardSoftDecimalScore :=
  (toScaled? hard).bind fun h => (toScaled? soft).map fun s => ⟨h, s⟩

def levelDecimal (w : Whole) : Decimal := (Decimal.ofWhole w 5 (by decide)).normalize

def hard (s : HardSoftDecimalScore) : Decimal := levelDecimal s.hardScaled

def soft (s : HardSoftDecimalScore) : Decimal := levelDecimal s.softScaled

def readLevel (part : List Char) (ending : String) : Except ScoreTextError Whole :=
  match Text.dropEnding? ending.toList (Text.trim part) with
  | none => .error (.missingDecimalEnding (.ofList part) ending)
  | some number =>
      match Decimal.read number with
      | .error cause => .error (.malformedDecimal ending (.ofList number) cause)
      | .ok d =>
          match toScaled? d with
          | some w => .ok w
          | none => .error (.outOfRange ending (.ofList number))

def readText (cs : List Char) : Except ScoreTextError HardSoftDecimalScore :=
  let text := Text.trim cs
  match Text.splitAtFirst? '/' text with
  | none => .error (.notTwoLevels "HardSoftDecimalScore" (.ofList text))
  | some (hard, soft) => do
      let h ← readLevel hard "hard"
      let s ← readLevel soft "soft"
      return ⟨h, s⟩

instance : ReadableScore HardSoftDecimalScore where
  levels := [.hard, .soft]
  toLevels s := [s.hardScaled, s.softScaled]
  ofLevels ws := ⟨ws.headD 0, ws.tail.headD 0⟩
  timesWhole s n := ⟨s.hardScaled.timesWhole n, s.softScaled.timesWhole n⟩
  text s := s.hard.text ++ "hard/" ++ s.soft.text ++ "soft"
  debugText s := "HardSoftDecimalScore(" ++ s.hard.text ++ ", " ++ s.soft.text ++ ")"
  read := readText

instance : LawfulScore HardSoftDecimalScore where
  ofLevels_toLevels _ := rfl
  toLevels_ofLevels ws h := by
    change ws.length = 2 at h
    rcases ws with _ | ⟨a, _ | ⟨b, _ | ⟨c, ws⟩⟩⟩ <;> simp_all
    rfl
  length_toLevels _ := rfl
  ofLevels_nil := rfl
  timesWhole_eq _ _ := rfl

/-- The score of two whole levels. -/
def ofWhole (hard soft : Whole) : Except Overflow HardSoftDecimalScore :=
  match hard.mul? scale, soft.mul? scale with
  | some h, some s => .ok ⟨h, s⟩
  | _, _ => .error .multiply

def oneHard : HardSoftDecimalScore := ⟨scale, 0⟩

def oneSoft : HardSoftDecimalScore := ⟨0, scale⟩

end HardSoftDecimalScore

end ConstraintScoring
