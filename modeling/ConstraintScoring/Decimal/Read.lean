import ConstraintScoring.Decimal.Arithmetic

/-!
# Reading decimals

A decimal is an optional sign and digits with at most one point among them; underscores may follow
the first digit. Decimal places that do not fit are cut off, and the first digit cut rounds the
number half up; only digits and underscores may stand there. A text that is no such number but has
an exponent mark is read once more as a number times a power of ten.
-/

namespace ConstraintScoring

inductive DecimalError where
  | empty
  | unknownCharacter
  | twoPoints
  | leadingSeparator
  | noDigits
  | tooManyDigits
  | roundingOverflow
  | malformedExponent
  | tooManyPlaces (places : Nat)
  | tooLarge
deriving DecidableEq

def DecimalError.message : DecimalError → String
  | .empty => "Invalid decimal: empty"
  | .unknownCharacter => "Invalid decimal: unknown character"
  | .twoPoints => "Invalid decimal: two decimal points"
  | .leadingSeparator => "Invalid decimal: must start lead with a number"
  | .noDigits => "Invalid decimal: no digits found"
  | .tooManyDigits => "Invalid decimal: overflow from too many digits"
  | .roundingOverflow => "Invalid decimal: overflow from mantissa after rounding"
  | .malformedExponent => "Failed to parse"
  | .tooManyPlaces places =>
      "Scale exceeds the maximum precision allowed: " ++ toString places ++ " > 28"
  | .tooLarge => "Number exceeds maximum value that can be represented."

namespace Decimal

/-- What has been read of a number: its digits so far, the places among them, and whether the
point and some digit were seen. -/
structure Scan where
  negative : Bool := false
  digits : Nat := 0
  places : Nat := 0
  point : Bool := false
  started : Bool := false

def digit? (c : Char) : Option Nat :=
  if '0' ≤ c ∧ c ≤ '9' then some (c.toNat - '0'.toNat) else none

namespace Scan

/-- A number that is zero as it stands has no sign. -/
def finish (s : Scan) : Except DecimalError Decimal :=
  if s.started then
    match ofSigned? (s.negative && s.digits != 0) s.digits s.places with
    | some d => .ok d
    | none => .error .tooManyDigits
  else .error .noDigits

def refuse (c : Char) : DecimalError :=
  if c = '.' then .twoPoints
  else if c = '_' then .leadingSeparator
  else .unknownCharacter

/-- The number rounded up in its last place. -/
def roundUp (s : Scan) : Except DecimalError Decimal :=
  if s.digits + 1 < 2 ^ (96 : Nat) then finish { s with digits := s.digits + 1 }
  else if s.places = 0 then .error .roundingOverflow
  else finish { s with digits := (s.digits + 5) / 10, places := s.places - 1 }

/-- Whether the digits had left 64 bits before the last of them. -/
def isWide (s : Scan) : Bool := 1844674407370954906 ≤ s.digits / 10

/-- Ends a number before characters that no longer fit. An underscore in front of them stands for
the digit zero, unless the number is wide. -/
def cut (s : Scan) (rest : List Char) : Except DecimalError Decimal :=
  match rest.find? fun c => (digit? c).isNone && c != '_' with
  | some c => .error (refuse c)
  | none =>
      match (if s.isWide then rest.dropWhile (· == '_') else rest).head?.bind digit? with
      | some d => if d < 5 then s.finish else s.roundUp
      | none => s.finish

def push (s : Scan) (d : Nat) : Scan :=
  { s with
    digits := s.digits * 10 + d
    places := if s.point then s.places + 1 else 0
    started := true }

/-- Reads what follows the sign. -/
def run (s : Scan) : List Char → Except DecimalError Decimal
  | [] => s.finish
  | c :: rest =>
      if s.point && s.started && 28 ≤ s.places then s.cut (c :: rest)
      else
        match digit? c with
        | some d =>
            if s.digits * 10 + d < 2 ^ (96 : Nat) then (s.push d).run rest
            else if s.point then s.cut (c :: rest)
            else .error .tooManyDigits
        | none =>
            if c = '.' && !s.point then run { s with point := true } rest
            else if c = '_' && s.started then s.run rest
            else .error (refuse c)

end Scan

def readPlain : List Char → Except DecimalError Decimal
  | [] => .error .empty
  | '-' :: rest => Scan.run { negative := true } rest
  | '+' :: rest => Scan.run {} rest
  | cs => Scan.run {} cs

/-- An exponent: digits, a plus sign before them allowed, below `2 ^ 32`. -/
def readExponent? (cs : List Char) : Option Nat :=
  let digits := if cs.head? = some '+' then cs.tail else cs
  if digits.isEmpty then none
  else
    match digits.mapM digit? with
    | some ds =>
        let n := ds.foldl (fun n d => n * 10 + d) 0
        if n < 2 ^ (32 : Nat) then some n else none
    | none => none

/-- The number with its point moved, rounded half away from zero where more than 28 places are
wanted. A number that rounds to zero keeps its sign. -/
def withScale (d : Decimal) (scale : Nat) : Except DecimalError Decimal :=
  let magnitude := roundQuotient .awayFromZero d.magnitude (10 ^ (scale - 28))
  match ofSigned? d.negative magnitude (min scale 28) with
  | some d => .ok d
  | none => .error (.tooManyPlaces scale)

/-- The product with a power of ten, zeros at the end of its places dropped. -/
def timesTen (d : Decimal) (exponent : Nat) : Except DecimalError Decimal :=
  match (ofParts? (10 ^ exponent) 0).bind d.mul? with
  | some d => .ok d.normalize
  | none => .error .tooLarge

def readScientific (base exponent : List Char) : Except DecimalError Decimal := do
  let d ← readPlain base
  match exponent with
  | '-' :: digits =>
      match readExponent? digits with
      | none => .error .malformedExponent
      | some n => if 28 < n then .error (.tooManyPlaces n) else d.withScale (d.scale + n)
  | digits =>
      match readExponent? digits with
      | none => .error .malformedExponent
      | some n =>
          if n ≤ d.scale then d.withScale (d.scale - n)
          else if 28 < n then .error (.tooManyPlaces n)
          else d.timesTen n

def isExponentMark (c : Char) : Bool := c == 'e' || c == 'E'

def read (cs : List Char) : Except DecimalError Decimal :=
  match readPlain cs with
  | .ok d => .ok d
  | .error e =>
      if cs.any isExponentMark then
        readScientific (cs.takeWhile (!isExponentMark ·)) (cs.dropWhile (!isExponentMark ·)).tail
      else .error e

end Decimal

end ConstraintScoring
