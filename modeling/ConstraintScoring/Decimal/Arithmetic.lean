import ConstraintScoring.Decimal.Basic

/-!
# Decimal arithmetic

A sum keeps the larger number of places and a product adds them. When the exact result has more
than 28 places, or a magnitude that does not fit, just enough places are dropped, rounding half
to even; with no place left to drop the operation has no result. Zero is neutral in a sum whatever
its places, and a product with zero is `0`. A product of two large numbers that rounds to zero keeps
its sign; no other zero result has one.
-/

namespace ConstraintScoring.Decimal

/-- The decimal for `magnitude / 10 ^ scale`, with a sign, after dropping as few places as will
do. -/
def fitSigned? (negative : Bool) (magnitude scale : Nat) : Option Decimal :=
  (List.range (scale + 1)).findSome? fun dropped =>
    if scale ≤ 28 + dropped then
      ofSigned? negative (roundQuotient .toEven magnitude (10 ^ dropped)) (scale - dropped)
    else none

/-- The decimal for `coefficient / 10 ^ scale` after dropping as few places as will do. -/
def fit? (coefficient : Int) (scale : Nat) : Option Decimal :=
  fitSigned? (coefficient < 0) coefficient.natAbs scale

def alignedSum? (a b : Decimal) : Option Decimal :=
  let scale := max a.scale b.scale
  fit? (a.coefficient * 10 ^ (scale - a.scale) + b.coefficient * 10 ^ (scale - b.scale)) scale

def add? (a b : Decimal) : Option Decimal :=
  if a.isZero then some b
  else if b.isZero then some a
  else alignedSum? a b

def sub? (a b : Decimal) : Option Decimal :=
  if a.isZero then some (if b.isZero then b else b.neg)
  else if b.isZero then some a
  else alignedSum? a b.neg

/-- Whether the magnitudes of both numbers have at most 32 bits. -/
def bothSmall (a b : Decimal) : Bool := a.magnitude < 2 ^ (32 : Nat) && b.magnitude < 2 ^ (32 : Nat)

/-- A zero without its sign. -/
def dropZeroSign (d : Decimal) : Decimal := if d.isZero then { d with negative := false } else d

/-- Two small numbers with more than 47 places between them have the product zero. -/
def mul? (a b : Decimal) : Option Decimal :=
  if a.isZero || b.isZero || (bothSmall a b && 47 < a.scale + b.scale) then some zero
  else
    let product :=
      fitSigned? (a.negative != b.negative) (a.magnitude * b.magnitude) (a.scale + b.scale)
    if bothSmall a b then product.map dropZeroSign else product

/-- The quotient by a positive count: exact at the dividend's scale if that is possible, else with
as many places as fit, zeros at the end dropped. -/
def divCount? (a : Decimal) (n : Nat) : Option Decimal :=
  if a.isZero then some zero
  else if a.magnitude % n = 0 then ofParts? (roundDiv .toEven a.coefficient n) a.scale
  else
    (List.range (29 - a.scale)).reverse.findSome? fun extra =>
      (ofParts? (roundDiv .toEven (a.coefficient * 10 ^ extra) n) (a.scale + extra)).map normalize

/-- The nearest whole number, halves away from zero. -/
def round (d : Decimal) : Int := roundDiv .awayFromZero d.coefficient (10 ^ d.scale)

/-- The magnitude as a binary value: the whole part and the fraction are converted one by one,
and their sum is rounded to the decimal places once more. -/
def magnitudeToBinary64 (n scale : Nat) : Binary64 :=
  let power : Binary64 := Binary64.nearest ((10 ^ scale : Nat) : Rat)
  let whole := Binary64.nearest ((n / 10 ^ scale : Nat) : Rat)
  let fraction := (Binary64.nearest ((n % 10 ^ scale : Nat) : Rat)).div power
  if fraction.value = 0 then whole
  else
    let scaled := (whole.add fraction).mul power
    (Binary64.nearest (scaled.round : Rat)).div power

def toBinary64 (d : Decimal) : Binary64 :=
  if d.scale = 0 then Binary64.nearest (d.coefficient : Rat)
  else
    let m := magnitudeToBinary64 d.magnitude d.scale
    if d.isNegative then ⟨-m.value⟩ else m

end ConstraintScoring.Decimal
