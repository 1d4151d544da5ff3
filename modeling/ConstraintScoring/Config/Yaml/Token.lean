import ConstraintScoring.Config.Yaml.Tag

/-!
# The tokens of a YAML text

Indentation shows in tokens too: a block collection has a token where it starts and one where it
ends.
-/

namespace ConstraintScoring.Yaml

inductive ScalarStyle where
  | plain
  | quoted
  | literal
  | folded
deriving DecidableEq

inductive Token where
  | streamEnd
  | directive (d : Directive)
  | documentStart
  | documentEnd
  | blockSequenceStart
  | blockMappingStart
  | blockEnd
  | flowSequenceStart
  | flowSequenceEnd
  | flowMappingStart
  | flowMappingEnd
  | blockEntry
  | flowEntry
  | key
  | value
  | reference (name : String)
  | anchor (name : String)
  | tag (t : Tag)
  | scalar (style : ScalarStyle) (text : String)

namespace Token

def isDirective : Token → Bool
  | directive _ => true
  | _ => false

def isDocumentEnd : Token → Bool
  | documentEnd => true
  | _ => false

end Token

end ConstraintScoring.Yaml
