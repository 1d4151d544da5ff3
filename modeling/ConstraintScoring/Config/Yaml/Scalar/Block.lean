import ConstraintScoring.Config.Yaml.Cursor
import ConstraintScoring.Text.Reader

/-!
# Block scalars

The lines of a block scalar share an indentation, which is given or that of the first line. A
literal scalar keeps its line breaks; in a folded one a single line break between two lines that do
not begin with a blank is read as a space. The line breaks at the end are kept, cut down to one or
dropped.
-/

namespace ConstraintScoring.Yaml

open Reader

/-- What becomes of the line breaks at the end. -/
inductive Chomping where
  | clip
  | keep
  | strip
deriving DecidableEq

structure BlockHeader where
  chomping : Chomping
  /-- The indentation within the parent; none if the first line decides. -/
  increment : Option Nat

def chompingMark : Reader Chomping := do
  match ← head? with
  | some '+' =>
      skip 1
      return .keep
  | some '-' =>
      skip 1
      return .strip
  | _ => return .clip

def incrementMark : Reader (Option Nat) := do
  match ← head? with
  | some c =>
      if '0' ≤ c ∧ c ≤ '9' then
        if c = '0' then failure
        skip 1
        return some (c.toNat - '0'.toNat)
      else return none
  | none => return none

/-- The marks behind the sign of a block scalar, in either order, up to the end of the line. -/
def blockHeader : Reader BlockHeader := do
  let first ← chompingMark
  let increment ← incrementMark
  let chomping ← if first = .clip then chompingMark else pure first
  skipToLineEnd
  return ⟨chomping, increment⟩

/-- Whether the column is one that indentation goes past. -/
def isIndentation (indent : Option Nat) (column : Nat) : Bool := indent.all (column < ·)

/-- Goes past indentation, as far as it is known. -/
def skipIndentation (indent : Option Nat) : Nat → Reader Unit
  | 0 => failure
  | fuel + 1 => do
      if (← head?) == some ' ' && isIndentation indent (← column) then
        skip 1
        skipIndentation indent fuel

/-- Goes past empty lines and the indentation of the next one; gives the line breaks and the widest
indentation. -/
def blockBreaks (indent : Option Nat) (widest : Nat) : Nat → Reader (List Char × Nat)
  | 0 => failure
  | fuel + 1 => do
      skipIndentation indent (fuel + 1)
      let here ← column
      if (← head?) == some '\t' && isIndentation indent here then failure
      if (← head?).any isBreak then
        let text ← lineBreak
        let (texts, widest) ← blockBreaks indent (max widest here) fuel
        return (text ++ texts, widest)
      else return ([], max widest here)

/-- The line breaks between two lines. -/
def blockJoint (literal besideBlank : Bool) (first others : List Char) : List Char :=
  if !literal && first == ['\n'] && !besideBlank then if others.isEmpty then [' '] else others
  else first ++ others

/-- The lines at the given indentation, behind the line breaks `first` and `others`. -/
def blockLines (literal : Bool) (chomping : Chomping) (indent : Nat) (afterBlank : Bool)
    (first others : List Char) : Nat → Reader (List Char)
  | 0 => failure
  | fuel + 1 => do
      match ← head?, (← column) == indent with
      | some c, true =>
          let joint := blockJoint literal (afterBlank || isBlank c) first others
          let line ← takeWhile (!isBreak ·)
          let first ← lineBreak
          let (others, _) ← blockBreaks (some indent) 0 (fuel + 1)
          let rest ← blockLines literal chomping indent (isBlank c) first others fuel
          return joint ++ line ++ rest
      | _, _ =>
          match chomping with
          | .strip => return []
          | .clip => return first
          | .keep => return first ++ others

/-- A block scalar inside of what is indented to the column `parent`, `-1` outside of all. -/
def blockScalar (literal : Bool) (parent : Int) : Reader (List Char) := do
  skip 1
  let header ← blockHeader
  let fuel ← fuel
  let given := header.increment.map fun n => parent.toNat + n
  let (breaks, widest) ← blockBreaks given 0 fuel
  let indent := given.getD (max widest (max 1 (parent + 1).toNat))
  blockLines literal header.chomping indent false [] breaks fuel

end ConstraintScoring.Yaml
