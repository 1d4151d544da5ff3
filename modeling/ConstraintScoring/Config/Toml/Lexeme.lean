import ConstraintScoring.Text.Reader

/-!
# The words of TOML

Gaps, line ends, quoted texts and keys. A line ends with a line feed, which a carriage return may
come before; no other control character but the tab may stand anywhere. A line break inside a text
is read as a line feed.
-/

namespace ConstraintScoring.Toml

open Text Text.Reader

def isGap (c : Char) : Bool := c == ' ' || c == '\t'

def isControl (c : Char) : Bool := (c.toNat < 0x20 && c != '\t') || c.toNat == 0x7f

def skipGap : Reader Unit := skipWhile isGap

def lineBreak : Reader Unit := do
  match ← get with
  | '\n' :: rest => set rest
  | '\r' :: '\n' :: rest => set rest
  | _ => failure

def skipComment : Reader Unit := do
  if (← peek) == some '#' then skipWhile (!isControl ·)

/-- Ends a line: a gap, a comment and a line break or the end of the text. -/
def endLine : Reader Unit := do
  skipGap
  skipComment
  if !(← atEnd) then lineBreak

def tryBreak : Reader Bool := (do lineBreak; return true) <|> return false

/-- Skips gaps, comments and line breaks. -/
def skipLines : Nat → Reader Unit
  | 0 => return ()
  | fuel + 1 => do
      skipGap
      skipComment
      if ← tryBreak then skipLines fuel

def skipSpace : Reader Unit := do skipLines ((← get).length + 1)

/-- The character that a backslash and what follows it stand for. -/
def escapeOf : Char → Reader Char
  | 'b' => return '\x08'
  | 't' => return '\t'
  | 'n' => return '\n'
  | 'f' => return '\x0c'
  | 'r' => return '\r'
  | '\x22' => return '\x22'
  | '\\' => return '\\'
  | 'u' => codePoint 4
  | 'U' => codePoint 8
  | _ => failure

/-- The rest of a text in double quotes on one line. -/
def basicText : Nat → Reader (List Char)
  | 0 => failure
  | fuel + 1 => do
      let c ← next
      if c = '\x22' then return []
      else if c = '\\' then
        let e ← escapeOf (← next)
        return e :: (← basicText fuel)
      else if isControl c then failure
      else return c :: (← basicText fuel)

/-- The rest of a text in single quotes on one line. -/
def literalText : Nat → Reader (List Char)
  | 0 => failure
  | fuel + 1 => do
      let c ← next
      if c = '\x27' then return []
      else if isControl c then failure
      else return c :: (← literalText fuel)

/-- The end of a text in tripled quotes: up to two more quotes before the closing ones belong to
the text. -/
def closing? (quote : Char) (cs : List Char) : Option (List Char × List Char) :=
  let quotes := cs.takeWhile (· == quote)
  if quotes.length < 3 then none
  else
    let inner := min 2 (quotes.length - 3)
    some (List.replicate inner quote, cs.drop (inner + 3))

/-- Skips gaps and line breaks. -/
def skipBlank : Nat → Reader Unit
  | 0 => return ()
  | fuel + 1 => do
      skipGap
      if ← tryBreak then skipBlank fuel

/-- After a backslash in a text of several lines: an escape, or a line end to be skipped together
with the blanks behind it. -/
def multilineEscape (fuel : Nat) : Reader (List Char) := do
  let here ← get
  skipGap
  if ← tryBreak then
    skipBlank fuel
    return []
  else
    set here
    return [← escapeOf (← next)]

/-- The rest of a text in tripled quotes. -/
def multilineText (quote : Char) : Nat → Reader (List Char)
  | 0 => failure
  | fuel + 1 => do
      match closing? quote (← get) with
      | some (inner, rest) =>
          set rest
          return inner
      | none =>
          if ← tryBreak then return '\n' :: (← multilineText quote fuel)
          else
            let c ← next
            if c = '\\' ∧ quote = '\x22' then
              let e ← multilineEscape fuel
              return e ++ (← multilineText quote fuel)
            else if isControl c then failure
            else return c :: (← multilineText quote fuel)

/-- A text in quotes of any kind. A line break right behind tripled quotes does not count. -/
def quotedText : Reader (List Char) := do
  let fuel := (← get).length + 1
  if ← tryMark "\x22\x22\x22" then
    let _ ← tryBreak
    multilineText '\x22' fuel
  else if ← tryMark "\x27\x27\x27" then
    let _ ← tryBreak
    multilineText '\x27' fuel
  else if ← tryMark "\x22" then basicText fuel
  else do
    expect "\x27"
    literalText fuel

def isBareKey (c : Char) : Bool :=
  ('a' ≤ c && c ≤ 'z') || ('A' ≤ c && c ≤ 'Z') || ('0' ≤ c && c ≤ '9') || c == '_' || c == '-'

def simpleKey : Reader String := do
  let fuel := (← get).length + 1
  if ← tryMark "\x22" then return String.ofList (← basicText fuel)
  else if ← tryMark "\x27" then return String.ofList (← literalText fuel)
  else
    let word ← takeWhile isBareKey
    if word.isEmpty then failure else return String.ofList word

def restOfKey : Nat → Reader (List String)
  | 0 => failure
  | fuel + 1 => do
      skipGap
      if ← tryMark "." then
        skipGap
        let k ← simpleKey
        return k :: (← restOfKey fuel)
      else return []

/-- How deep keys, arrays and tables may be nested. -/
def depthLimit : Nat := 80

/-- A key with its points: the path to what it names. -/
def dottedKey : Reader (List String) := do
  skipGap
  let k ← simpleKey
  let path := k :: (← restOfKey ((← get).length + 1))
  if path.length < depthLimit then return path else failure

end ConstraintScoring.Toml
