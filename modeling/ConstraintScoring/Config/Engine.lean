import ConstraintScoring.Config.Setting
import ConstraintScoring.EngineError
import ConstraintScoring.Score.Text
import ConstraintScoring.Table

/-!
# Engine configurations

How much sessions check their own results, whether they keep matches by default, and texts for the
weights of constraints. Whatever is not set has its default, and keys that mean nothing are
ignored.
-/

namespace ConstraintScoring

inductive EnvironmentMode where
  | nonReproducible
  | reproducible
  /-- Every score is compared with that of a session built anew from the same facts. -/
  | fullAssert
deriving DecidableEq

namespace EnvironmentMode

instance : Inhabited EnvironmentMode := ⟨nonReproducible⟩

def isAsserted (m : EnvironmentMode) : Bool := m == fullAssert

def debugText : EnvironmentMode → String
  | nonReproducible => "NonReproducible"
  | reproducible => "Reproducible"
  | fullAssert => "FullAssert"

def ofName? : String → Option EnvironmentMode
  | "non_reproducible" => some nonReproducible
  | "reproducible" => some reproducible
  | "full_assert" => some fullAssert
  | _ => none

end EnvironmentMode

structure EngineConfig where
  mode : EnvironmentMode
  matchTracking : Bool
  /-- Score texts by the name or the full name of a constraint. -/
  weights : Table String String

namespace EngineConfig

def default : EngineConfig := ⟨.nonReproducible, false, .empty⟩

def isDefault (c : EngineConfig) : Bool :=
  c.mode == .nonReproducible && !c.matchTracking && c.weights.entries.isEmpty

def withWeight (c : EngineConfig) (constraint weight : String) : EngineConfig :=
  { c with weights := c.weights.insert constraint weight }

/-- The weights by ascending name. -/
def sortedWeights (c : EngineConfig) : List (String × String) :=
  c.weights.entries.mergeSort fun a b => compare a.1 b.1 != .gt

section Settings

variable {N : Type} [Setting N]

def weightTexts : List (String × N) → Option (List (String × String))
  | [] => some []
  | (name, n) :: rest => do
      let text ← Setting.text? n
      let texts ← weightTexts rest
      return (name, text) :: texts

/-- Reads a configuration off its settings; fails when a setting is not of the expected kind. -/
def ofSetting? (n : N) : Option EngineConfig := do
  let entries ← Setting.entries? n
  let mode ← uniqueEntry? "environment_mode" entries
  let tracking ← uniqueEntry? "constraint_match_tracking" entries
  let weights ← uniqueEntry? "constraint_weights" entries
  let mode ← mode.elim (some .nonReproducible) fun n =>
    (Setting.choice? n).bind EnvironmentMode.ofName?
  let tracking ← tracking.elim (some false) Setting.flag?
  let texts ← weights.elim (some []) fun n => (Setting.entries? n).bind weightTexts
  return ⟨mode, tracking, texts.foldl (fun t (name, text) => t.insert name text) .empty⟩

end Settings

def readWeights (S : Type) [ReadableScore S] :
    List (String × String) → Except ConfigProblem (List (String × S))
  | [] => .ok []
  | (name, text) :: rest =>
      match ReadableScore.read text.toList with
      | .error e => .error (.malformedWeight name e.message)
      | .ok weight => do return (name, weight) :: (← readWeights S rest)

/-- The weights as scores; the first name whose text is no score is reported. -/
def scores (S : Type) [ReadableScore S] (c : EngineConfig) :
    Except ConfigProblem (List (String × S)) :=
  readWeights S c.sortedWeights

end EngineConfig

/-- The notations of configuration texts. -/
inductive ConfigNotation where
  | toml
  | yaml
deriving DecidableEq

/-- What follows the last point of a file name, if the name does not begin with that point. -/
def fileExtension? (name : List Char) : Option (List Char) :=
  let extension := (name.reverse.takeWhile (· != '.')).reverse
  if extension.length + 1 < name.length then some extension else none

/-- The notation of a file by its name. -/
def ConfigNotation.ofFileName (name : String) : ConfigNotation :=
  match (fileExtension? name.toList).map String.ofList with
  | some "yaml" => .yaml
  | some "yml" => .yaml
  | _ => .toml

end ConstraintScoring
