import ConstraintScoring.Number.WholeText
import ConstraintScoring.Decimal.Read
import ConstraintScoring.Score.Basic
import ConstraintScoring.Text.Blank

/-!
# Score texts

The levels of a score are written one after another with `/` between them, each a number followed
by the name of the level. Blanks around the text and around each level are ignored when reading.
-/

namespace ConstraintScoring

inductive ScoreTextError where
  | missingLevel (type text ending : String)
  | missingEnding (part type text ending : String)
  | malformedWhole (level number : String) (cause : WholeError)
  | tooManyLevels (type text : String)
  | notTwoLevels (type text : String)
  | missingDecimalEnding (part ending : String)
  | malformedDecimal (level number : String) (cause : DecimalError)
  | outOfRange (level number : String)
deriving DecidableEq

namespace ScoreTextError

def detail : ScoreTextError → String
  | missingLevel type text ending => s!"{type} '{text}' has no '{ending}' level"
  | missingEnding part type text ending =>
      s!"level '{part}' of {type} '{text}' must end with '{ending}'"
  | malformedWhole level number cause => s!"invalid {level} level '{number}': " ++ cause.message
  | tooManyLevels type text => s!"{type} '{text}' has too many levels"
  | notTwoLevels type text => s!"{type} '{text}' must look like 'Xhard/Ysoft'"
  | missingDecimalEnding part ending => s!"level '{part}' must end with '{ending}'"
  | malformedDecimal level number cause => s!"invalid {level} level '{number}': " ++ cause.message
  | outOfRange level number => s!"{level} level '{number}' is out of range"

def message (e : ScoreTextError) : String := "Score parse error: " ++ e.detail

end ScoreTextError

class ReadableScore (S : Type) extends Score S where
  read : List Char → Except ScoreTextError S

/-- The name of a level and what follows its number in a text. -/
structure LevelText where
  name : String
  ending : String

/-- How the levels of a score type with whole-number levels are written. -/
structure LevelGrammar where
  type : String
  levels : List LevelText

namespace LevelGrammar

def readLevel (g : LevelGrammar) (text part : List Char) (level : LevelText) :
    Except ScoreTextError Whole :=
  match Text.dropEnding? level.ending.toList part with
  | none => .error (.missingEnding (.ofList part) g.type (.ofList text) level.ending)
  | some number =>
      match Whole.read number with
      | .ok w => .ok w
      | .error cause => .error (.malformedWhole level.name (.ofList number) cause)

def readLevels (g : LevelGrammar) (text : List Char) :
    List LevelText → List (List Char) → Except ScoreTextError (List Whole)
  | [], [] => .ok []
  | [], _ :: _ => .error (.tooManyLevels g.type (.ofList text))
  | level :: _, [] => .error (.missingLevel g.type (.ofList text) level.ending)
  | level :: levels, part :: parts => do
      let w ← g.readLevel text part level
      let ws ← g.readLevels text levels parts
      return w :: ws

def read (g : LevelGrammar) (cs : List Char) : Except ScoreTextError (List Whole) :=
  let text := Text.trim cs
  g.readLevels text g.levels ((Text.splitAtEach '/' text).map Text.trim)

def levelTexts : List LevelText → List Whole → List String
  | level :: levels, w :: ws => (w.text ++ level.ending) :: levelTexts levels ws
  | _, _ => []

def write (g : LevelGrammar) (ws : List Whole) : String :=
  "/".intercalate (levelTexts g.levels ws)

def debug (g : LevelGrammar) (ws : List Whole) : String :=
  g.type ++ "(" ++ ", ".intercalate (ws.map Whole.text) ++ ")"

end LevelGrammar

end ConstraintScoring
