import ConstraintScoring.Text.Shown

/-!
# Texts in double quotes

Inside the quotes a quote and a backslash are escaped by a backslash; the tabulator, line feed,
carriage return and the zero character have short escapes, and every other character that is not
shown as itself is written as its code point.
-/

namespace ConstraintScoring.Text

def codePoint (c : Char) : List Char :=
  '\\' :: 'u' :: '\x7b' :: Nat.toDigits 16 c.toNat ++ ['\x7d']

def escapeChar (quote c : Char) : List Char :=
  if c = '\t' then ['\\', 't']
  else if c = '\n' then ['\\', 'n']
  else if c = '\r' then ['\\', 'r']
  else if c = '\x00' then ['\\', '0']
  else if c = '\\' || c = quote then ['\\', c]
  else if isHidden c then codePoint c
  else [c]

def inQuotes (quote : Char) (cs : List Char) : List Char :=
  quote :: cs.flatMap (escapeChar quote) ++ [quote]

/-- The text in double quotes. -/
def escaped (s : String) : String := String.ofList (inQuotes '\x22' s.toList)

def escapedChar (c : Char) : String := String.ofList (inQuotes '\x27' [c])

/-- The text of a value that may be absent. -/
def optional (o : Option String) : String :=
  match o with
  | none => "None"
  | some text => "Some(" ++ text ++ ")"

def escapedList (ss : List String) : String := "[" ++ ", ".intercalate (ss.map escaped) ++ "]"

end ConstraintScoring.Text
