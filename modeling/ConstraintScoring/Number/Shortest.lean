import ConstraintScoring.Number.Binary64

/-!
# The shortest decimal text of a binary value

The fewest significant digits that read back as the value are shown, of these the nearest to it.
Numbers from `0.0001` up to below `10 ^ 16` are written out with at least one decimal place, all
others with an exponent.
-/

namespace ConstraintScoring.Binary64

/-- `n / 10 ^ k`. -/
def decimalValue (n : Nat) (k : Int) : Rat :=
  if k < 0 then ((n * 10 ^ k.natAbs : Nat) : Rat) else (n : Rat) / ((10 ^ k.natAbs : Nat) : Rat)

/-- The whole number next to `q * 10 ^ k` that reads back as `q`, if one does. -/
def readingBack? (q : Rat) (k : Int) : Option Nat :=
  let n := decimalDigits q k
  [n, n + 1, n - 1].find? fun m => nearestPositive (decimalValue m k) == q

/-- The fewest digits that read back as a positive `q`, and the places among them. -/
def shortestDigits (q : Rat) : Nat × Int :=
  let places (n : Nat) : Int := n - leadingExponent q
  let shortest := (List.range 17).findSome? fun n =>
    (readingBack? q (places n)).map fun digits => (digits, places n)
  shortest.getD (decimalDigits q (places 16), places 16)

/-- Digits with their point before the last `places` of them, zeros filled in. -/
def positional (digits : Nat) (places : Int) : String :=
  if places ≤ 0 then toString (digits * 10 ^ places.natAbs) ++ ".0"
  else
    let ds := Nat.toDigits 10 digits
    let padded := List.replicate (places.natAbs + 1 - ds.length) '0' ++ ds
    String.ofList (padded.take (padded.length - places.natAbs)) ++ "." ++
      String.ofList (padded.drop (padded.length - places.natAbs))

def withExponent (digits : Nat) (exponent : Int) : String :=
  match Nat.toDigits 10 digits with
  | [digit] => digit.toString ++ "e" ++ toString exponent
  | _ => scientific digits exponent

def shortestPositive (q : Rat) : String :=
  let (digits, places) := shortestDigits q
  if q < 1 / 10000 ∨ 10 ^ (16 : Nat) ≤ q then
    withExponent digits ((digitCount digits : Int) - 1 - places)
  else positional digits places

/-- The shortest text that reads back as the value. -/
def shortestText (a : Binary64) : String :=
  if a.value.num = 0 then "0.0"
  else if a.value.num < 0 then "-" ++ shortestPositive (-a.value)
  else shortestPositive a.value

end ConstraintScoring.Binary64
