import ConstraintScoring.Number.Whole

/-!
# Reading whole numbers

An optional sign and decimal digits. The first character that is no digit, or the first digit that
takes the number out of range, decides which error is reported.
-/

namespace ConstraintScoring

inductive WholeError where
  | empty
  | invalidDigit
  | tooLarge
  | tooSmall
deriving DecidableEq

def WholeError.message : WholeError → String
  | .empty => "cannot parse integer from empty string"
  | .invalidDigit => "invalid digit found in string"
  | .tooLarge => "number too large to fit in target type"
  | .tooSmall => "number too small to fit in target type"

namespace Whole

def pushDigit (negative : Bool) (n : Whole) (c : Char) : Except WholeError Whole :=
  if '0' ≤ c ∧ c ≤ '9' then
    let d : Int := c.toNat - '0'.toNat
    match ofInt? (if negative then n.val * 10 - d else n.val * 10 + d) with
    | some m => .ok m
    | none => .error (if negative then .tooSmall else .tooLarge)
  else .error .invalidDigit

def readDigits (negative : Bool) (cs : List Char) : Except WholeError Whole :=
  if cs.isEmpty then .error .invalidDigit else cs.foldlM (pushDigit negative) 0

def read : List Char → Except WholeError Whole
  | [] => .error .empty
  | '-' :: rest => readDigits true rest
  | '+' :: rest => readDigits false rest
  | cs => readDigits false cs

end Whole

end ConstraintScoring
