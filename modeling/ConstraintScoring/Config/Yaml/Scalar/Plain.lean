import ConstraintScoring.Config.Yaml.Scalar.Gap

/-!
# Plain scalars

A plain scalar goes on until a colon that ends a word, a comment, a document mark or, outside of
brackets, a line that is not indented enough. Inside of brackets the marks of a collection end it as
well.
-/

namespace ConstraintScoring.Yaml

open Reader

/-- A mark that separates or encloses the entries of a collection in brackets. -/
def isFlowMark (c : Char) : Bool := [',', '[', ']', '\x7b', '\x7d'].contains c

/-- Takes a word; inside of brackets a colon may not be followed by a mark. -/
def plainWord (inFlow : Bool) : Nat → Reader (List Char)
  | 0 => failure
  | fuel + 1 => do
      match ← rest with
      | [] => return []
      | c :: cs =>
          if isBlank c || isBreak c || (c == ':' && endsWord cs) || (inFlow && isFlowMark c) then
            return []
          else if inFlow && c == ':' && cs.head?.any fun d => isFlowMark d || d == '?' then
            failure
          else
            skip 1
            return c :: (← plainWord inFlow fuel)

/-- The rest of a plain scalar behind a gap, and whether the scalar ended behind a line break. -/
def plainRest (inFlow : Bool) (least : Nat) (g : Gap) : Nat → Reader (List Char × Bool)
  | 0 => failure
  | fuel + 1 => do
      if (← get).atDocumentMark || (← head?) == some '#' then return ([], g.broken)
      let word ← plainWord inFlow (fuel + 1)
      let part := if word.isEmpty then [] else g.text ++ word
      let g := if word.isEmpty then g else .empty
      if (← rest).isEmpty || !endsWord (← rest) then return (part, g.broken)
      let g ← readGap least g (fuel + 1)
      if !inFlow && (← column) < least then return (part, g.broken)
      let (text, broken) ← plainRest inFlow least g fuel
      return (part ++ text, broken)

/-- A plain scalar whose lines begin at the column `least` or right of it. -/
def plainScalar (inFlow : Bool) (least : Nat) : Reader (List Char × Bool) := do
  plainRest inFlow least .empty (← fuel)

end ConstraintScoring.Yaml
