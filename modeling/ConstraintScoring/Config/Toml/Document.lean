import ConstraintScoring.Config.Toml.Moment
import ConstraintScoring.Config.Toml.Tree

/-!
# Reading TOML documents

A document is a sequence of entries and headers, one a line. Reading goes in two steps: the text is
cut into statements, and the statements fill a tree.
-/

namespace ConstraintScoring.Toml

open Text Text.Reader

/-- A value that is written in one word; a moment is tried before the numbers. -/
def word : Reader Value := do
  match ← peek with
  | some 't' =>
      expect "true"
      return .flag true
  | some 'f' =>
      expect "false"
      return .flag false
  | _ =>
      (do return .moment (← moment)) <|> (do float; return .number) <|> do
        integer
        return .number

mutual

/-- Reads a value inside of `depth` arrays and tables. -/
def readValue (depth : Nat) : Nat → Reader Value
  | 0 => failure
  | fuel + 1 => do
      match ← peek with
      | some '\x22' => return .text (String.ofList (← quotedText))
      | some '\x27' => return .text (String.ofList (← quotedText))
      | some '[' =>
          if depthLimit ≤ depth + 1 then failure
          expect "["
          return .array (← readItems (depth + 1) fuel)
      | some '\x7b' =>
          if depthLimit ≤ depth + 1 then failure
          expect "\x7b"
          skipGap
          if ← tryMark "\x7d" then return .table []
          else return .table (contents (← readInline (depth + 1) [] fuel))
      | _ => word

/-- The rest of an array. -/
def readItems (depth : Nat) : Nat → Reader (List Value)
  | 0 => failure
  | fuel + 1 => do
      skipSpace
      if ← tryMark "]" then return []
      else
        let v ← readValue depth fuel
        skipSpace
        if ← tryMark "," then return v :: (← readItems depth fuel)
        else
          expect "]"
          return [v]

/-- The rest of a table written on one line, after the given entries. -/
def readInline (depth : Nat) (es : Entries) : Nat → Reader Entries
  | 0 => failure
  | fuel + 1 => do
      let key ← dottedKey
      expect "="
      skipGap
      let v ← readValue depth fuel
      match addEntry v false false key es with
      | none => failure
      | some es =>
          skipGap
          if ← tryMark "," then readInline depth es fuel
          else
            expect "\x7d"
            return es

end

inductive Statement where
  | entry (key : List String) (v : Value)
  | header (path : List String)
  | item (path : List String)

def readStatement : Reader Statement := do
  if ← tryMark "[[" then
    let path ← dottedKey
    expect "]]"
    return .item path
  else if ← tryMark "[" then
    let path ← dottedKey
    expect "]"
    return .header path
  else
    let key ← dottedKey
    expect "="
    skipGap
    return .entry key (← readValue 0 ((← get).length + 1))

def readStatements : Nat → Reader (List Statement)
  | 0 => failure
  | fuel + 1 => do
      skipSpace
      if ← atEnd then return []
      else
        let s ← readStatement
        endLine
        return s :: (← readStatements fuel)

/-- Carries out the statements after the header of `path`. -/
def build : List String → Entries → List Statement → Option Entries
  | _, es, [] => some es
  | path, es, .entry key v :: rest => do build path (← addBelow v key path es) rest
  | _, es, .header path :: rest => do build path (← openTable path es) rest
  | _, es, .item path :: rest => do build path (← openItem path es) rest

/-- A byte order mark may stand in front of a document. -/
def dropMark : List Char → List Char
  | '\ufeff' :: cs => cs
  | cs => cs

/-- The table that a document describes, if it is well-formed. -/
def read (cs : List Char) : Option Value := do
  let statements ← onAll (readStatements (cs.length + 1)) (dropMark cs)
  return .table (contents (← build [] [] statements))

end ConstraintScoring.Toml
