import ConstraintScoring.Config.Toml.Lexeme
import ConstraintScoring.Number.WholeText

/-!
# The numbers of TOML

Integers of 64 bits in four bases, and floating point numbers. Single underscores may stand between
digits. A number that is too large for a finite floating point value is refused unless it is
negative.
-/

namespace ConstraintScoring.Toml

open Text Text.Reader

def isDigit (c : Char) : Bool := '0' ≤ c && c ≤ '9'

def digitsAfter (digit : Char → Bool) : Nat → Reader (List Char)
  | 0 => failure
  | fuel + 1 => do
      let ds ← takeWhile digit
      if ← tryMark "_" then
        if (← peek).any digit then return ds ++ (← digitsAfter digit fuel) else failure
      else return ds

/-- Digits, without the underscores between them. -/
def digitRun (digit : Char → Bool) : Reader (List Char) := do
  if (← peek).any digit then digitsAfter digit ((← get).length + 1) else failure

def sign : Reader Bool := do
  if ← tryMark "-" then return true
  else
    let _ ← tryMark "+"
    return false

/-- The digits of a whole number; only zero itself begins with a zero. -/
def wholeDigits : Reader (List Char) := do
  if ← tryMark "0" then return ['0'] else digitRun isDigit

def naturalOf (base : Nat) (ds : List Char) : Nat :=
  ds.foldl (fun n c => n * base + (hexDigit? c).getD 0) 0

/-- A whole number in base ten, in the range of 64 bits. -/
def decimalInteger : Reader Unit := do
  let negative ← sign
  let n : Int := naturalOf 10 (← wholeDigits)
  if (Whole.ofInt? (if negative then -n else n)).isNone then failure

def integerInBase (base : Nat) : Reader Unit := do
  let digit (c : Char) : Bool := (hexDigit? c).any (· < base)
  let n : Int := naturalOf base (← digitRun digit)
  if (Whole.ofInt? n).isNone then failure

def integer : Reader Unit := do
  if ← tryMark "0x" then integerInBase 16
  else if ← tryMark "0o" then integerInBase 8
  else if ← tryMark "0b" then integerInBase 2
  else decimalInteger

def isExponentMark (c : Char) : Bool := c == 'e' || c == 'E'

/-- The power of ten in a number; zero if it is not given. -/
def exponent : Reader Int := do
  if (← peek).any isExponentMark then
    let _ ← next
    let negative ← sign
    let n : Int := naturalOf 10 (← digitRun isDigit)
    return if negative then -n else n
  else return 0

/-- Whether `n * 10 ^ k` rounds to no finite floating point value. -/
def isTooLarge (n : Nat) (k : Int) : Bool :=
  if n = 0 then false
  else
    let magnitude := (Nat.toDigits 10 n).length + k
    if magnitude < 309 then false
    else if 309 < magnitude then true
    else n * 10 ^ k.toNat ≥ (2 ^ (1024 : Nat) - 2 ^ (970 : Nat)) * 10 ^ (-k).toNat

/-- A number with a fraction or an exponent. -/
def scientific : Reader Unit := do
  let negative ← sign
  let whole ← wholeDigits
  let fraction ← if ← tryMark "." then digitRun isDigit else pure []
  if fraction.isEmpty && !(← peek).any isExponentMark then failure
  let k ← exponent
  if !negative && isTooLarge (naturalOf 10 (whole ++ fraction)) (k - fraction.length) then failure

def float : Reader Unit :=
  scientific <|> do
    let _ ← sign
    if !(← tryMark "inf") then expect "nan"

end ConstraintScoring.Toml
