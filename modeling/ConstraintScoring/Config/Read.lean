import ConstraintScoring.Config.Engine
import ConstraintScoring.Config.Toml.Document
import ConstraintScoring.Config.Yaml.Document

/-!
# Reading engine configurations
-/

namespace ConstraintScoring

/-- Reads a configuration; fails on a malformed text and on a setting of the wrong kind. -/
def EngineConfig.read (form : ConfigNotation) (text : String) : Option EngineConfig :=
  match form with
  | .toml => (Toml.read text.toList).bind ofSetting?
  | .yaml => (Yaml.read text.toList).bind ofSetting?

end ConstraintScoring
