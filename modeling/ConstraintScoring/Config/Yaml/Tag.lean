import ConstraintScoring.Config.Yaml.Cursor
import ConstraintScoring.Text.Reader

/-!
# Tags, directives and anchors

A tag is a handle and a suffix; what handles stand for can be said by directives at the beginning of
a document. Bytes of a tag may be escaped by a percent sign; a tag that is no text then counts for
nothing, and a zero byte ends it.
-/

namespace ConstraintScoring.Yaml

open Reader

def isWordChar (c : Char) : Bool :=
  ('0' ≤ c && c ≤ '9') || ('A' ≤ c && c ≤ 'Z') || ('a' ≤ c && c ≤ 'z') || c == '_' || c == '-'

def isTagChar (c : Char) : Bool := isWordChar c || ";/?:@&=+$.!~*\x27()".toList.contains c

/-- What a byte that begins a character says of the number of its bytes. -/
def encodedLength? (byte : Nat) : Option Nat :=
  if byte < 0x80 then some 1
  else if byte < 0xc0 then none
  else if byte < 0xe0 then some 2
  else if byte < 0xf0 then some 3
  else if byte < 0xf8 then some 4
  else none

def escapedByte : Reader Nat := do
  expect '%'
  match ← rest with
  | high :: low :: _ =>
      match Text.hexDigit? high, Text.hexDigit? low with
      | some h, some l =>
          skip 2
          return 16 * h + l
      | _, _ => failure
  | _ => failure

def trailingBytes : Nat → Reader (List Nat)
  | 0 => return []
  | n + 1 => do
      let byte ← escapedByte
      if byte < 0x80 ∨ 0xc0 ≤ byte then failure
      return byte :: (← trailingBytes n)

/-- The bytes of one escaped character. -/
def escapedBytes : Reader (List Nat) := do
  let first ← escapedByte
  match encodedLength? first with
  | none => failure
  | some length => return first :: (← trailingBytes (length - 1))

def tagBytes (allowed : Char → Bool) : Nat → Reader (List Nat)
  | 0 => failure
  | fuel + 1 => do
      match ← head? with
      | none => return []
      | some c =>
          if c = '%' then
            let bytes ← escapedBytes
            return bytes ++ (← tagBytes allowed fuel)
          else if allowed c then
            skip 1
            return c.toNat :: (← tagBytes allowed fuel)
          else return []

/-- The text of some bytes up to the first zero, if they encode one. -/
def textOfBytes? (bytes : List Nat) : Option String :=
  String.fromUTF8? ⟨((bytes.takeWhile (· != 0)).map Nat.toUInt8).toArray⟩

structure Tag where
  handle : String
  suffix : Option String

/-- The characters of a tag behind those of `head`; there has to be one. -/
def tagText (inBrackets : Bool) (head : List Char) : Reader (Option String) := do
  let allowed (c : Char) : Bool := isTagChar c || (inBrackets && [',', '[', ']'].contains c)
  let bytes ← tagBytes allowed (← fuel)
  if bytes.isEmpty ∧ head.isEmpty then failure
  return textOfBytes? (head.tail.map Char.toNat ++ bytes)

/-- An exclamation mark with the word behind it, and the mark that closes a handle. -/
def tagHandle : Reader (List Char) := do
  expect '!'
  let word ← takeWhile isWordChar
  if (← head?) == some '!' then
    skip 1
    return '!' :: word ++ ['!']
  else return '!' :: word

/-- Whether a text begins and ends with two different exclamation marks. -/
def isClosedHandle (cs : List Char) : Bool := 1 < cs.length && cs.getLast? == some '!'

def verbatimTag : Reader Tag := do
  skip 2
  let suffix ← tagText true []
  expect '>'
  return ⟨"", suffix⟩

def shorthandTag : Reader Tag := do
  let handle ← tagHandle
  if isClosedHandle handle then return ⟨String.ofList handle, ← tagText false []⟩
  else
    match ← tagText false handle with
    | some "" => return ⟨"", some "!"⟩
    | suffix => return ⟨"!", suffix⟩

/-- A tag, which a blank or a line break has to follow, or a comma inside of brackets. -/
def tag (inFlow : Bool) : Reader Tag := do
  let tag ← if (← rest).tail.head? = some '<' then verbatimTag else shorthandTag
  if endsWord (← rest) || (inFlow && (← head?) == some ',') then return tag else failure

/-- The name of an anchor behind its sign. -/
def anchorName : Reader String := do
  skip 1
  let name ← takeWhile isWordChar
  let ended := endsWord (← rest) || (← head?).any fun c =>
    "?:,]\x7d%@".toList.contains c || c.toNat == 0x60
  if name.isEmpty || !ended then failure else return String.ofList name

inductive Directive where
  | version (major minor : Nat)
  | handle (handle : String) (stem : Option String)

/-- A number of at most nine digits. -/
def versionNumber : Reader Nat := do
  let ds ← takeWhile fun c => '0' ≤ c && c ≤ '9'
  if ds.isEmpty ∨ 9 < ds.length then failure
  return ds.foldl (fun n c => 10 * n + (c.toNat - '0'.toNat)) 0

def versionDirective : Reader Directive := do
  skipWhile isBlank
  let major ← versionNumber
  expect '.'
  return .version major (← versionNumber)

def handleDirective : Reader Directive := do
  skipWhile isBlank
  let handle ← tagHandle
  if !isClosedHandle handle && handle != ['!'] then failure
  if !(← head?).any isBlank then failure
  skipWhile isBlank
  let stem ← tagText true []
  if !endsWord (← rest) then failure
  return .handle (String.ofList handle) stem

/-- A directive with the rest of its line. -/
def directive : Reader Directive := do
  skip 1
  let name ← takeWhile isWordChar
  if !endsWord (← rest) then failure
  let d ←
    match String.ofList name with
    | "YAML" => versionDirective
    | "TAG" => handleDirective
    | _ => failure
  skipToLineEnd
  return d

end ConstraintScoring.Yaml
