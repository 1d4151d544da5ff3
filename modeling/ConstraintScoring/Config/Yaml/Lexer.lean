import ConstraintScoring.Config.Yaml.Scalar.Block
import ConstraintScoring.Config.Yaml.Scalar.Plain
import ConstraintScoring.Config.Yaml.Scalar.Quoted
import ConstraintScoring.Config.Yaml.Token

/-!
# Cutting a YAML text into tokens

Whether a scalar is a key shows only when a colon follows it, so each level of brackets remembers
the place of one token that may turn out to be a key; the token that marks the key is put in front
of it afterwards. A key without a question mark stays on one line and within 1024 characters.
-/

namespace ConstraintScoring.Yaml

/-- A token that may turn out to be a key: where it starts and how many tokens came before it. One
that begins a line of a block mapping has to be a key. -/
structure KeyCandidate where
  required : Bool
  number : Nat
  index : Nat
  line : Nat
  column : Nat

structure Lexer where
  cursor : Cursor
  /-- The tokens so far, the latest in front, and their number. -/
  tokens : List Token
  count : Nat
  /-- The indentation of the innermost block collection, `-1` outside of all, and of those
  around it. -/
  indent : Int
  indents : List Int
  keyAllowed : Bool
  candidate : Option KeyCandidate
  /-- The candidates of the enclosing levels of brackets. -/
  outer : List (Option KeyCandidate)

abbrev Lexing (α : Type) := StateT Lexer Option α

namespace Lexer

def ofText (cs : List Char) : Lexer := ⟨.ofText cs, [], 0, -1, [], true, none, []⟩

def inFlow (s : Lexer) : Bool := !s.outer.isEmpty

def push (s : Lexer) (t : Token) : Lexer := { s with tokens := t :: s.tokens, count := s.count + 1 }

/-- Puts a token behind the first `number` ones. -/
def insert (s : Lexer) (number : Nat) (t : Token) : Lexer :=
  let later := s.count - number
  { s with
    tokens := s.tokens.take later ++ t :: s.tokens.drop later
    count := s.count + 1 }

/-- Starts a block collection that is indented more than the one around it; its first token is
put behind the first `number` ones. -/
def indentTo (s : Lexer) (column : Nat) (number : Nat) (start : Token) : Lexer :=
  if !s.inFlow && s.indent < column then
    { s.insert number start with indent := column, indents := s.indent :: s.indents }
  else s

/-- Ends the block collections that are indented more than `column`; `outer` are the indentations
around the innermost one. -/
def dedentFrom (s : Lexer) (column : Int) : List Int → Lexer
  | [] => { s with indents := [] }
  | indent :: outer =>
      if column < s.indent then dedentFrom { s.push .blockEnd with indent } column outer
      else { s with indents := indent :: outer }

def dedentTo (s : Lexer) (column : Int) : Lexer :=
  if s.inFlow then s else dedentFrom s column s.indents

end Lexer

def KeyCandidate.isStale (k : KeyCandidate) (c : Cursor) : Bool :=
  k.line < c.line || k.index + 1024 < c.index

namespace Lexing

def read {α : Type} (r : Reader α) : Lexing α := fun s =>
  (r.run s.cursor).map fun (a, cursor) => (a, { s with cursor })

def push (t : Token) : Lexing Unit := modify (·.push t)

/-- Gives up a candidate; one that has to be a key cannot be given up. -/
def giveUp (k : Option KeyCandidate) : Lexing (Option KeyCandidate) :=
  if k.any (·.required) then failure else return none

def giveUpStale (k : Option KeyCandidate) : Lexing (Option KeyCandidate) := do
  if k.any (·.isStale (← get).cursor) then giveUp k else return k

def giveUpAllStale : Lexing Unit := do
  let candidate ← giveUpStale (← get).candidate
  let outer ← (← get).outer.mapM giveUpStale
  modify fun s => { s with candidate, outer }

def dropCandidate : Lexing Unit := do
  let candidate ← giveUp (← get).candidate
  modify fun s => { s with candidate }

/-- Remembers that what comes next may be a key, where a key may stand. -/
def noteCandidate : Lexing Unit := do
  let s ← get
  if s.keyAllowed then
    dropCandidate
    let c := s.cursor
    let required := !s.inFlow && s.indent == c.column
    modify fun s => { s with candidate := some ⟨required, s.count, c.index, c.line, c.column⟩ }

def allowKey (allowed : Bool) : Lexing Unit := modify ({ · with keyAllowed := allowed })

/-- Goes past blanks, comments and line breaks. A tab does not count as a blank where a key may
stand outside of brackets; a line break makes a key possible there. -/
def skipToToken : Nat → Lexing Unit
  | 0 => failure
  | fuel + 1 => do
      let s ← get
      if s.cursor.index == 0 && s.cursor.rest.head? == some '\ufeff' then read (Reader.skip 1)
      let tabs := s.inFlow || !s.keyAllowed
      read (Reader.skipWhile fun c => c == ' ' || (tabs && c == '\t'))
      if (← read Reader.head?) == some '#' then read (Reader.skipWhile (!isBreak ·))
      if (← read Reader.head?).any isBreak then
        let _ ← read Reader.lineBreak
        if !s.inFlow then allowKey true
        skipToToken fuel

/-- Ends all block collections; no key may follow. -/
def endBlocks : Lexing Unit := do
  modify (·.dedentTo (-1))
  dropCandidate
  allowKey false

def streamEnd : Lexing Unit := do
  endBlocks
  push .streamEnd

def directive : Lexing Unit := do
  endBlocks
  push (.directive (← read Yaml.directive))

def documentMark (t : Token) : Lexing Unit := do
  endBlocks
  read (Reader.skip 3)
  push t

def openFlow (t : Token) : Lexing Unit := do
  noteCandidate
  modify fun s => { s with outer := s.candidate :: s.outer, candidate := none }
  allowKey true
  read (Reader.skip 1)
  push t

def closeFlow (t : Token) : Lexing Unit := do
  dropCandidate
  modify fun s =>
    match s.outer with
    | [] => s
    | candidate :: outer => { s with candidate, outer }
  allowKey false
  read (Reader.skip 1)
  push t

def flowEntry : Lexing Unit := do
  dropCandidate
  allowKey true
  read (Reader.skip 1)
  push .flowEntry

/-- Starts a block collection with the mark that comes next, where a key might stand. -/
def openBlock (start : Token) : Lexing Unit := do
  let s ← get
  if !s.inFlow then
    if !s.keyAllowed then failure
    modify (·.indentTo s.cursor.column s.count start)

def blockEntry : Lexing Unit := do
  openBlock .blockSequenceStart
  dropCandidate
  allowKey true
  read (Reader.skip 1)
  push .blockEntry

def key : Lexing Unit := do
  openBlock .blockMappingStart
  dropCandidate
  allowKey (!(← get).inFlow)
  read (Reader.skip 1)
  push .key

/-- A colon makes the candidate a key. -/
def value : Lexing Unit := do
  match (← get).candidate with
  | some k =>
      modify fun s =>
        { (s.insert k.number .key).indentTo k.column k.number .blockMappingStart with
          candidate := none, keyAllowed := false }
  | none =>
      openBlock .blockMappingStart
      allowKey (!(← get).inFlow)
  read (Reader.skip 1)
  push .value

/-- A token that may be a key or stand in front of one. -/
def keyPart (r : Reader Token) : Lexing Unit := do
  noteCandidate
  allowKey false
  push (← read r)

def blockScalar (literal : Bool) : Lexing Unit := do
  dropCandidate
  allowKey true
  let text ← read (Yaml.blockScalar literal (← get).indent)
  push (.scalar (if literal then .literal else .folded) (String.ofList text))

def plainScalar : Lexing Unit := do
  let s ← get
  noteCandidate
  allowKey false
  let (text, broken) ← read (Yaml.plainScalar s.inFlow (s.indent + 1).toNat)
  if broken then allowKey true
  push (.scalar .plain (String.ofList text))

def quotedToken (quote : Char) : Reader Token := do
  return .scalar .quoted (String.ofList (← quotedScalar quote))

/-- Whether a plain scalar may begin with `c` followed by `cs`. -/
def beginsPlain (inFlow : Bool) (c : Char) (cs : List Char) : Bool :=
  if c = '-' then !cs.head?.any isBlank
  else if c = '?' ∨ c = ':' then !inFlow && !endsWord cs
  else
    !isBlank c && !isBreak c && c.toNat != 0x60 &&
      !",[]\x7b\x7d#&*!|>\x27\x22%@".toList.contains c

/-- The token that begins with `c` followed by `cs`. -/
def tokenAt (c : Char) (cs : List Char) : Lexing Unit := do
  let s ← get
  match c with
  | '[' => openFlow .flowSequenceStart
  | '\x7b' => openFlow .flowMappingStart
  | ']' => closeFlow .flowSequenceEnd
  | '\x7d' => closeFlow .flowMappingEnd
  | ',' => flowEntry
  | '*' => keyPart do return .reference (← anchorName)
  | '&' => keyPart do return .anchor (← anchorName)
  | '!' => keyPart do return .tag (← Yaml.tag s.inFlow)
  | '\x27' => keyPart (quotedToken '\x27')
  | '\x22' => keyPart (quotedToken '\x22')
  | c =>
      if c = '-' ∧ endsWord cs then blockEntry
      else if c = '?' ∧ (s.inFlow ∨ endsWord cs) then key
      else if c = ':' ∧ (s.inFlow ∨ endsWord cs) then value
      else if c = '|' ∧ ¬s.inFlow then blockScalar true
      else if c = '>' ∧ ¬s.inFlow then blockScalar false
      else if beginsPlain s.inFlow c cs then plainScalar
      else failure

/-- Reads one token and those that indentation puts in front of it; answers whether the text has
ended. -/
def token : Lexing Bool := do
  skipToToken (← read Reader.fuel)
  giveUpAllStale
  modify fun s => s.dedentTo s.cursor.column
  let c := (← get).cursor
  match c.rest with
  | [] =>
      streamEnd
      return true
  | first :: cs =>
      if c.column = 0 ∧ first = '%' then directive
      else if c.atDocumentMark then
        documentMark (if first = '-' then .documentStart else .documentEnd)
      else tokenAt first cs
      return false

def tokens : Nat → Lexing Unit
  | 0 => failure
  | fuel + 1 => do
      if !(← token) then tokens fuel

end Lexing

/-- The tokens of a text in order, if it can be cut into tokens. -/
def tokensOf? (cs : List Char) : Option (List Token) :=
  ((Lexing.tokens (cs.length + 1)).run (.ofText cs)).map fun (_, s) => s.tokens.reverse

end ConstraintScoring.Yaml
