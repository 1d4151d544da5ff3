import ConstraintScoring.Domain
import ConstraintScoring.Number.Shortest
import ConstraintScoring.Planning.Column

/-!
# Shifts of employees

A roster is planned by giving each shift an employee. A shift may require a skill, and goes from
its start up to but not including its end.
-/

namespace ConstraintScoring.Planning

structure Employee where
  id : Nat
  name : String
  skills : List String
deriving DecidableEq

structure Shift where
  id : Nat
  employee : Option Nat
  start : Nat
  finish : Nat
  requiredSkill : Option String
deriving DecidableEq

def numberLabel (n : Option Nat) : String := Text.optional (n.map toString)

def Employee.label (e : Employee) : String :=
  "Employee \x7b id: " ++ toString e.id ++ ", name: " ++ Text.escaped e.name ++ ", skills: " ++
    listLabel (e.skills.map Text.escaped) ++ " \x7d"

namespace Shift

def label (s : Shift) : String :=
  "Shift \x7b id: " ++ toString s.id ++ ", employee: " ++ numberLabel s.employee ++ ", start: " ++
    toString s.start ++ ", end: " ++ toString s.finish ++ ", required_skill: " ++
    Text.optional (s.requiredSkill.map Text.escaped) ++ " \x7d"

/-- The length of the shift; a shift that ends before it starts has none. -/
def hours (s : Shift) : Nat := s.finish - s.start

end Shift

inductive RosterCell where
  | employee (e : Employee)
  | shift (s : Shift)
  | number (n : Nat)
  | maybeNumber (n : Option Nat)
  | maybeWhole (n : Option Whole)
  | count (n : Nat)
  | text (s : String)
  | texts (ss : List String)
  | maybeText (s : Option String)
  | numbers (ns : List Nat)
  | maybeNumbers (ns : List (Option Nat))
  | mean (x : Option Binary64)

namespace RosterCell

def typeName : RosterCell → String
  | employee _ => "Employee"
  | shift _ => "Shift"
  | number _ => "u32"
  | maybeNumber _ => "Option<u32>"
  | maybeWhole _ => "Option<i64>"
  | count _ => "usize"
  | text _ => "String"
  | texts _ => "Vec<String>"
  | maybeText _ => "Option<String>"
  | numbers _ => "Vec<u32>"
  | maybeNumbers _ => "Vec<Option<u32>>"
  | mean _ => "Option<f64>"

def label : RosterCell → String
  | employee e => e.label
  | shift s => s.label
  | number n => toString n
  | maybeNumber n => numberLabel n
  | maybeWhole n => Text.optional (n.map Whole.text)
  | count n => toString n
  | text s => Text.escaped s
  | texts ss => listLabel (ss.map Text.escaped)
  | maybeText s => Text.optional (s.map Text.escaped)
  | numbers ns => listLabel (ns.map toString)
  | maybeNumbers ns => listLabel (ns.map numberLabel)
  | mean x => Text.optional (x.map Binary64.shortestText)

def wholeCode (n : Int) : List Nat := [if n < 0 then 0 else 1, n.natAbs]

/-- Tells cells apart; numbers, present or absent, are ordered as usual. -/
def code : RosterCell → List Nat
  | employee e => 0 :: e.id :: textCode e.name ++ textsCode e.skills
  | shift s =>
      1 :: s.id :: optionCode s.employee ++ [s.start, s.finish] ++ textsCode s.requiredSkill.toList
  | number n => [2, n]
  | maybeNumber n => 3 :: optionCode n
  | maybeWhole n => 4 :: n.toList.flatMap fun w => wholeCode w.val
  | count n => [5, n]
  | text s => 6 :: textCode s
  | texts ss => 11 :: textsCode ss
  | maybeText s => 7 :: textsCode s.toList
  | numbers ns => 8 :: ns.length :: ns
  | maybeNumbers ns => 9 :: ns.length :: ns.flatMap optionCode
  | mean x => 10 :: x.toList.flatMap fun b => b.value.den :: wholeCode b.value.num

instance : Cell RosterCell where
  compare a b := compareCodes a.code b.code
  typeName := typeName
  label := label

end RosterCell

/-- The types of the facts, within the scope that their names are given in. -/
def employeeType (scope : String) : String := scope ++ "Employee"

def shiftType (scope : String) : String := scope ++ "Shift"

def Employee.fact (scope : String) (e : Employee) : Fact RosterCell :=
  ⟨employeeType scope, .number e.id, .employee e⟩

def Shift.fact (scope : String) (s : Shift) : Fact RosterCell :=
  ⟨shiftType scope, .number s.id, .shift s⟩

def rosterPlanningId : RosterCell → RosterCell
  | .employee e => .number e.id
  | .shift s => .number s.id
  | cell => cell

def hasEmployee : RosterCell → Except Fault Bool
  | .shift s => .ok s.employee.isSome
  | _ => unexpectedColumn

def employeeClass (scope : String) : FactClass RosterCell :=
  ⟨employeeType scope, none, rosterPlanningId⟩

def shiftClass (scope : String) : FactClass RosterCell :=
  ⟨shiftType scope, some hasEmployee, rosterPlanningId⟩

/-- Employees as problem facts, and shifts that are assigned once they have an employee. -/
def rosterDomain (scope : String) : DomainModel RosterCell :=
  (DomainModel.empty.withClass (employeeClass scope)).withClass (shiftClass scope)

end ConstraintScoring.Planning
