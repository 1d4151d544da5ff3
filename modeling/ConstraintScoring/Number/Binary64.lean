import ConstraintScoring.Number.Rounding
import ConstraintScoring.Number.Whole

/-!
# Binary floating point values

A `Binary64` is a rational number that some exact result was rounded to: 53 significant bits, ties
to even. The magnitudes that means of decimals reach stay far inside the exponent range, so neither
overflow nor the gradual loss of bits near zero occurs. The text form has twelve significant
digits.
-/

namespace ConstraintScoring

structure Binary64 where
  value : Rat
deriving DecidableEq

namespace Binary64

instance : Ord Binary64 :=
  ⟨fun a b => if a.value < b.value then .lt else if b.value < a.value then .gt else .eq⟩

/-- `q * 2 ^ k` as a fraction of naturals, for a positive `q`. -/
def scaleTwo (q : Rat) (k : Int) : Nat × Nat :=
  if k < 0 then (q.num.natAbs, q.den * 2 ^ k.natAbs) else (q.num.natAbs * 2 ^ k.natAbs, q.den)

def twoPow (k : Int) : Rat :=
  if k < 0 then 1 / ((2 ^ k.natAbs : Nat) : Rat) else ((2 ^ k.natAbs : Nat) : Rat)

/-- The shift that brings a positive `q` between `2 ^ 52` and `2 ^ 53`. -/
def binaryShift (q : Rat) : Int :=
  let k : Int := 52 - (q.num.natAbs.log2 : Int) + (q.den.log2 : Int)
  let (n, d) := scaleTwo q k
  if n < 2 ^ (52 : Nat) * d then k + 1 else k

def nearestPositive (q : Rat) : Rat :=
  let k := binaryShift q
  let (n, d) := scaleTwo q k
  (roundQuotient .toEven n d : Rat) * twoPow (-k)

/-- The binary floating point value nearest to `q`. -/
def nearest (q : Rat) : Binary64 :=
  if q.num = 0 then ⟨0⟩
  else if q.num < 0 then ⟨-nearestPositive (-q)⟩
  else ⟨nearestPositive q⟩

def add (a b : Binary64) : Binary64 := nearest (a.value + b.value)

def mul (a b : Binary64) : Binary64 := nearest (a.value * b.value)

def div (a b : Binary64) : Binary64 := nearest (a.value / b.value)

/-- The whole number nearest to the value, halves away from zero. -/
def round (a : Binary64) : Int := roundDiv .awayFromZero a.value.num a.value.den

def digitCount (n : Nat) : Nat := (Nat.toDigits 10 n).length

/-- The exponent of the first significant decimal digit of a positive `q`. -/
def leadingExponent (q : Rat) : Int :=
  if q.den ≤ q.num.natAbs then (digitCount (q.num.natAbs / q.den) : Int) - 1
  else -(digitCount ((q.den - 1) / q.num.natAbs) : Int)

/-- `q * 10 ^ k` rounded to a whole number, for a positive `q`. -/
def decimalDigits (q : Rat) (k : Int) : Nat :=
  if k < 0 then roundQuotient .toEven q.num.natAbs (q.den * 10 ^ k.natAbs)
  else roundQuotient .toEven (q.num.natAbs * 10 ^ k.natAbs) q.den

def scientific (digits : Nat) (exponent : Int) : String :=
  match Nat.toDigits 10 digits with
  | [] => ""
  | first :: rest => String.ofList (first :: '.' :: rest) ++ "e" ++ toString exponent

def positiveText (q : Rat) : String :=
  let e := leadingExponent q
  let digits := decimalDigits q (11 - e)
  if digits = 10 ^ (12 : Nat) then scientific (10 ^ (11 : Nat)) (e + 1) else scientific digits e

/-- One digit, a point, eleven digits and the exponent. -/
def text (a : Binary64) : String :=
  if a.value.num = 0 then "0.00000000000e0"
  else if a.value.num < 0 then "-" ++ positiveText (-a.value)
  else positiveText a.value

end Binary64

end ConstraintScoring
