import ConstraintScoring.Config.Yaml.Scalar.Gap
import ConstraintScoring.Text.Reader

/-!
# Quoted scalars

In single quotes a doubled quote stands for one, in double quotes there are escapes. A backslash at
the end of a line joins it to the next one without a space. No document mark may stand at the
beginning of a line.
-/

namespace ConstraintScoring.Yaml

open Reader

def simpleEscape? : Char → Option Char
  | '0' => some '\x00'
  | 'a' => some '\x07'
  | 'b' => some '\x08'
  | 't' => some '\t'
  | '\t' => some '\t'
  | 'n' => some '\n'
  | 'v' => some '\x0b'
  | 'f' => some '\x0c'
  | 'r' => some '\r'
  | 'e' => some '\x1b'
  | ' ' => some ' '
  | '\x22' => some '\x22'
  | '/' => some '/'
  | '\\' => some '\\'
  | 'N' => some '\u0085'
  | '_' => some '\u00a0'
  | 'L' => some '\u2028'
  | 'P' => some '\u2029'
  | _ => none

/-- The number of digits behind the letter of an escape that gives a code point. -/
def codeLength? : Char → Option Nat
  | 'x' => some 2
  | 'u' => some 4
  | 'U' => some 8
  | _ => none

/-- The character with the code point given by the next digits. -/
def codePoint (digits : Nat) : Reader Char := do
  match (Text.Reader.codePoint digits).run (← rest) with
  | none => failure
  | some (c, _) =>
      skip digits
      return c

/-- Reads what follows a backslash. -/
def escape : Reader Char := do
  match ← head? with
  | none => failure
  | some letter =>
      skip 1
      match simpleEscape? letter, codeLength? letter with
      | some c, _ => return c
      | _, some digits => codePoint digits
      | _, _ => failure

/-- Takes a word, and says whether a line break that joins two lines ended it. -/
def quotedWord (quote : Char) : Nat → Reader (List Char × Bool)
  | 0 => failure
  | fuel + 1 => do
      match ← rest with
      | [] => return ([], false)
      | c :: cs =>
          if isBlank c || isBreak c then return ([], false)
          else if c = quote then
            if quote = '\x27' ∧ cs.head? = some quote then
              skip 2
              let (word, joined) ← quotedWord quote fuel
              return (c :: word, joined)
            else return ([], false)
          else if c = '\\' ∧ quote = '\x22' then
            skip 1
            if cs.head?.any isBreak then
              let _ ← lineBreak
              return ([], true)
            else
              let e ← escape
              let (word, joined) ← quotedWord quote fuel
              return (e :: word, joined)
          else
            skip 1
            let (word, joined) ← quotedWord quote fuel
            return (c :: word, joined)

/-- The rest of a quoted scalar. -/
def quotedRest (quote : Char) : Nat → Reader (List Char)
  | 0 => failure
  | fuel + 1 => do
      if (← get).atDocumentMark || (← rest).isEmpty then failure
      let (word, joined) ← quotedWord quote (fuel + 1)
      if (← head?) == some quote then
        skip 1
        return word
      else
        let g ← readGap 0 (if joined then .afterJoint else .empty) (fuel + 1)
        return word ++ g.text ++ (← quotedRest quote fuel)

def quotedScalar (quote : Char) : Reader (List Char) := do
  expect quote
  quotedRest quote (← fuel)

end ConstraintScoring.Yaml
