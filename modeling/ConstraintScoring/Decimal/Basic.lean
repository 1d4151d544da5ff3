import ConstraintScoring.Number.Binary64
import ConstraintScoring.Number.Whole

/-!
# Decimal numbers

A decimal is a sign, a magnitude below `2 ^ 96` and at most 28 decimal places. The number of places
and the sign are kept and shown even where the number is zero, so equal numbers may have different
texts; `compare` looks at the number alone.
-/

namespace ConstraintScoring

structure Decimal where
  negative : Bool
  magnitude : Nat
  scale : Nat
  magnitude_lt : magnitude < 79228162514264337593543950336
  scale_le : scale ≤ 28
deriving DecidableEq

namespace Decimal

/-- The number in units of its last decimal place. -/
def coefficient (d : Decimal) : Int :=
  if d.negative then -(d.magnitude : Int) else d.magnitude

def ofSigned? (negative : Bool) (magnitude scale : Nat) : Option Decimal :=
  if h : magnitude < 79228162514264337593543950336 ∧ scale ≤ 28 then
    some ⟨negative, magnitude, scale, h.1, h.2⟩
  else none

/-- The decimal for `coefficient / 10 ^ scale`; a zero has no sign. -/
def ofParts? (coefficient : Int) (scale : Nat) : Option Decimal :=
  ofSigned? (coefficient < 0) coefficient.natAbs scale

def toRat (d : Decimal) : Rat := (d.coefficient : Rat) / ((10 ^ d.scale : Nat) : Rat)

theorem noPlaces : 0 ≤ 28 := by decide

def zero : Decimal := ⟨false, 0, 0, by decide, noPlaces⟩

instance : Inhabited Decimal := ⟨zero⟩

/-- A whole number as a decimal with the given number of places. -/
def ofWhole (w : Whole) (scale : Nat) (h : scale ≤ 28) : Decimal :=
  ⟨w.val < 0, w.val.natAbs, scale, by have := w.min_le; have := w.le_max; omega, h⟩

def isZero (d : Decimal) : Bool := d.magnitude == 0

def isNegative (d : Decimal) : Bool := d.negative

def neg (d : Decimal) : Decimal := { d with negative := !d.negative }

instance : Ord Decimal :=
  ⟨fun a b => compare (a.coefficient * 10 ^ b.scale) (b.coefficient * 10 ^ a.scale)⟩

instance : BEq Decimal := ⟨fun a b => compare a b == .eq⟩

@[simp] theorem coefficient_neg (d : Decimal) : d.neg.coefficient = -d.coefficient := by
  cases h : d.negative <;> simp [coefficient, neg, h]

@[simp] theorem natAbs_coefficient (d : Decimal) : d.coefficient.natAbs = d.magnitude := by
  unfold coefficient
  split <;> simp

/-- Drops zeros at the end of the decimal places. -/
def dropZeros (d : Decimal) : Decimal :=
  match d with
  | ⟨negative, m, 0, hm, hs⟩ => ⟨negative, m, 0, hm, hs⟩
  | ⟨negative, m, s + 1, hm, hs⟩ =>
      if m % 10 = 0 then
        dropZeros ⟨negative, m / 10, s, Nat.lt_of_le_of_lt (Nat.div_le_self _ _) hm, by omega⟩
      else ⟨negative, m, s + 1, hm, hs⟩
termination_by d.scale

/-- The same number with the fewest decimal places; zero loses its sign as well. -/
def normalize (d : Decimal) : Decimal := if d.isZero then zero else d.dropZeros

def padLeft (n : Nat) (cs : List Char) : List Char := List.replicate (n - cs.length) '0' ++ cs

/-- Digits with a point before the last `scale` of them. -/
def digitsText (n scale : Nat) : List Char :=
  let digits := padLeft (scale + 1) (Nat.toDigits 10 n)
  if scale = 0 then digits
  else digits.take (digits.length - scale) ++ '.' :: digits.drop (digits.length - scale)

def textChars (d : Decimal) : List Char :=
  if d.isNegative then '-' :: digitsText d.magnitude d.scale else digitsText d.magnitude d.scale

def text (d : Decimal) : String := String.ofList d.textChars

end Decimal

end ConstraintScoring
