/-!
# Places in a YAML text

A cursor is a place in a text with its line and its column; readers move it. There are five line
breaks, and a carriage return with a line feed behind it is one. The first three of them are read as
a line feed, the separators of lines and paragraphs as themselves.
-/

namespace ConstraintScoring.Yaml

structure Cursor where
  rest : List Char
  index : Nat
  line : Nat
  column : Nat

def Cursor.ofText (cs : List Char) : Cursor := ⟨cs, 0, 0, 0⟩

def isBlank (c : Char) : Bool := c == ' ' || c == '\t'

def isBreak (c : Char) : Bool :=
  c == '\n' || c == '\r' || c == '\u0085' || c == '\u2028' || c == '\u2029'

def breakText (c : Char) : List Char :=
  if c = '\u2028' ∨ c = '\u2029' then [c] else ['\n']

/-- Whether a blank, a line break or the end comes next. -/
def endsWord : List Char → Bool
  | [] => true
  | c :: _ => isBlank c || isBreak c

/-- Whether a line break or the end comes next. -/
def endsLine : List Char → Bool
  | [] => true
  | c :: _ => isBreak c

/-- Whether three hyphens or three points stand here that mark where a document starts or ends. -/
def Cursor.atDocumentMark (c : Cursor) : Bool :=
  c.column == 0 && ["---", "..."].contains (String.ofList (c.rest.take 3)) &&
    endsWord (c.rest.drop 3)

abbrev Reader (α : Type) := StateT Cursor Option α

namespace Reader

def rest : Reader (List Char) := do return (← get).rest

def head? : Reader (Option Char) := do return (← get).rest.head?

def column : Reader Nat := do return (← get).column

/-- The number of steps that surely suffice to read what is left. -/
def fuel : Reader Nat := do return (← get).rest.length + 1

/-- Goes past some characters of a line. -/
def skip (n : Nat) : Reader Unit :=
  modify fun c => { c with rest := c.rest.drop n, index := c.index + n, column := c.column + n }

def takeWhile (p : Char → Bool) : Reader (List Char) := do
  let cs := (← rest).takeWhile p
  skip cs.length
  return cs

def skipWhile (p : Char → Bool) : Reader Unit := do
  let _ ← takeWhile p

/-- Goes past one given character. -/
def expect (c : Char) : Reader Unit := do
  if (← head?) == some c then skip 1 else failure

/-- Goes past a line break, if there is one, and gives what it is read as. -/
def lineBreak : Reader (List Char) := modifyGet fun c =>
  match c.rest with
  | '\r' :: '\n' :: cs => (['\n'], ⟨cs, c.index + 2, c.line + 1, 0⟩)
  | b :: cs => if isBreak b then (breakText b, ⟨cs, c.index + 1, c.line + 1, 0⟩) else ([], c)
  | [] => ([], c)

/-- Goes past blanks and a comment, up to the end of the line. -/
def skipToLineEnd : Reader Unit := do
  skipWhile isBlank
  if (← head?) == some '#' then skipWhile (!isBreak ·)
  if endsLine (← rest) then
    let _ ← lineBreak
  else failure

end Reader

end ConstraintScoring.Yaml
