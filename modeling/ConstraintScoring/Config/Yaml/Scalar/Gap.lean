import ConstraintScoring.Config.Yaml.Cursor

/-!
# Gaps between the words of a scalar

Blanks within a line are kept. Around line breaks all blanks are dropped, one line break is read as
a space, and further ones are kept.
-/

namespace ConstraintScoring.Yaml

structure Gap where
  blanks : List Char
  /-- Whether there was a line break; what follows are the texts of the first and of the others. -/
  broken : Bool
  firstBreak : List Char
  otherBreaks : List Char

namespace Gap

def empty : Gap := ⟨[], false, [], []⟩

/-- The gap behind a line break that counts for nothing itself. -/
def afterJoint : Gap := ⟨[], true, [], []⟩

def addBlank (g : Gap) (c : Char) : Gap :=
  if g.broken then g else { g with blanks := g.blanks ++ [c] }

def addBreak (g : Gap) (text : List Char) : Gap :=
  if g.broken then { g with otherBreaks := g.otherBreaks ++ text } else ⟨[], true, text, []⟩

def text (g : Gap) : List Char :=
  if !g.broken then g.blanks
  else if g.firstBreak = ['\n'] then if g.otherBreaks.isEmpty then [' '] else g.otherBreaks
  else g.firstBreak ++ g.otherBreaks

end Gap

open Reader

/-- Extends a gap as far as it goes. Behind a line break no tab may stand left of the column
`least`. -/
def readGap (least : Nat) (g : Gap) : Nat → Reader Gap
  | 0 => failure
  | fuel + 1 => do
      match ← head? with
      | none => return g
      | some c =>
          if isBlank c then
            if g.broken && c == '\t' && (← column) < least then failure
            skip 1
            readGap least (g.addBlank c) fuel
          else if isBreak c then
            let text ← lineBreak
            readGap least (g.addBreak text) fuel
          else return g

end ConstraintScoring.Yaml
