/-!
# Readers

A reader takes what it reads off the front of a text, or fails.
-/

namespace ConstraintScoring.Text

abbrev Reader (α : Type) := StateT (List Char) Option α

namespace Reader

def peek : Reader (Option Char) := do return (← get).head?

def next : Reader Char := do
  match ← get with
  | [] => failure
  | c :: rest =>
      set rest
      return c

def skipWhile (p : Char → Bool) : Reader Unit := modify (·.dropWhile p)

def takeWhile (p : Char → Bool) : Reader (List Char) :=
  modifyGet fun cs => (cs.takeWhile p, cs.dropWhile p)

/-- Takes `mark` off the front if the text begins with it. -/
def tryMark (mark : String) : Reader Bool := do
  if mark.toList.isPrefixOf (← get) then
    modify (·.drop mark.length)
    return true
  else return false

def expect (mark : String) : Reader Unit := do
  if !(← tryMark mark) then failure

def atEnd : Reader Bool := do return (← get).isEmpty

/-- What a reader makes of the whole of a text. -/
def onAll {α : Type} (r : Reader α) (cs : List Char) : Option α :=
  match r.run cs with
  | some (a, []) => some a
  | _ => none

end Reader

def hexDigit? (c : Char) : Option Nat :=
  if '0' ≤ c ∧ c ≤ '9' then some (c.toNat - '0'.toNat)
  else if 'a' ≤ c ∧ c ≤ 'f' then some (c.toNat - 'a'.toNat + 10)
  else if 'A' ≤ c ∧ c ≤ 'F' then some (c.toNat - 'A'.toNat + 10)
  else none

namespace Reader

def hexNumber : Nat → Nat → Reader Nat
  | 0, n => return n
  | digits + 1, n => do
      match hexDigit? (← next) with
      | some d => hexNumber digits (n * 16 + d)
      | none => failure

/-- A character written as its code point in the given number of digits. -/
def codePoint (digits : Nat) : Reader Char := do
  let n ← hexNumber digits 0
  if h : n.isValidChar then return Char.ofNatAux n h else failure

end Reader

end ConstraintScoring.Text
