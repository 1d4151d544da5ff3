import ConstraintScoring.Config.Toml.Number

/-!
# Dates and times of TOML

A moment is a date, a time of day or a date with a time, which may have an offset from universal
time. Its text keeps at most nine digits of a second and drops zeros at their end.
-/

namespace ConstraintScoring.Toml

open Text Text.Reader

/-- A number of exactly the given count of digits, within bounds. -/
def numberOf (digits least greatest : Nat) : Reader Nat := do
  let ds := (← get).take digits
  let n := naturalOf 10 ds
  if ds.length = digits ∧ ds.all isDigit ∧ least ≤ n ∧ n ≤ greatest then
    modify (·.drop digits)
    return n
  else failure

def isLeapYear (year : Nat) : Bool := year % 4 == 0 && (year % 100 != 0 || year % 400 == 0)

def daysInMonth (year month : Nat) : Nat :=
  if month = 2 then if isLeapYear year then 29 else 28
  else if [4, 6, 9, 11].contains month then 30
  else 31

/-- A number with zeros in front up to the given count of digits. -/
def padded (digits n : Nat) : String :=
  let ds := Nat.toDigits 10 n
  String.ofList (List.replicate (digits - ds.length) '0' ++ ds)

def date : Reader String := do
  let year ← numberOf 4 0 9999
  expect "-"
  let month ← numberOf 2 1 12
  expect "-"
  let day ← numberOf 2 1 (daysInMonth year month)
  return padded 4 year ++ "-" ++ padded 2 month ++ "-" ++ padded 2 day

def clock : Reader String := do
  let hour ← numberOf 2 0 23
  expect ":"
  let minute ← numberOf 2 0 59
  return padded 2 hour ++ ":" ++ padded 2 minute

def dropZeros (cs : List Char) : List Char := (cs.reverse.dropWhile (· == '0')).reverse

def fractionText (ds : List Char) : String :=
  match dropZeros (ds.take 9) with
  | [] => ""
  | ds => "." ++ String.ofList ds

def secondFraction : Reader String := do
  expect "."
  let ds ← takeWhile isDigit
  if ds.isEmpty then failure else return fractionText ds

def time : Reader String := do
  let start ← clock
  expect ":"
  let second ← numberOf 2 0 60
  return start ++ ":" ++ padded 2 second ++ (← secondFraction <|> return "")

/-- The offset from universal time; one of no minutes is positive. -/
def offset : Reader String := do
  if (← peek).any fun c => c == 'Z' || c == 'z' then
    let _ ← next
    return "Z"
  else
    let negative ← tryMark "-"
    if !negative then expect "+"
    let distance ← clock
    return (if negative && distance != "00:00" then "-" else "+") ++ distance

def timeAfterDate : Reader String := do
  let mark ← next
  if mark = 'T' ∨ mark = 't' ∨ mark = ' ' then
    let t ← time
    return "T" ++ t ++ (← offset <|> return "")
  else failure

def moment : Reader String :=
  (do
    let day ← date
    return day ++ (← timeAfterDate <|> return "")) <|> time

end ConstraintScoring.Toml
