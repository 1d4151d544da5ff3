import ConstraintScoring.Planning.Roster
import ConstraintScoring.Score.HardSoft
import ConstraintScoring.Stream.Factory

/-!
# Constraints on rosters

Choices of constraints for planning shifts, each a provider for a session factory.
-/

namespace ConstraintScoring.Planning

open ConstraintFactory

namespace RosterCell

def ofShift {α : Type} (f : Shift → α) (row : Row RosterCell) : Except Fault α :=
  match row with
  | [.shift s] => .ok (f s)
  | _ => unexpectedColumn

def ofEmployee {α : Type} (f : Employee → α) (row : Row RosterCell) : Except Fault α :=
  match row with
  | [.employee e] => .ok (f e)
  | _ => unexpectedColumn

def shiftCell (f : Shift → RosterCell) : RowFunction RosterCell RosterCell := own (ofShift f)

def shiftTest (f : Shift → Bool) : RowFunction RosterCell Bool := own (ofShift f)

def employeeOfShift : RowFunction RosterCell RosterCell :=
  shiftCell fun s => .maybeNumber s.employee

def startOfShift : RowFunction RosterCell RosterCell := shiftCell fun s => .number s.start

def finishOfShift : RowFunction RosterCell RosterCell := shiftCell fun s => .number s.finish

def idOfEmployee : RowFunction RosterCell RosterCell := own (ofEmployee fun e => .number e.id)

/-- Whether the employee in the second column has the skill that the shift in the first requires. -/
def hasRequiredSkill (row : Row RosterCell) : Except Fault Bool :=
  match row with
  | [.shift s, .employee e] => .ok (s.requiredSkill.any e.skills.contains)
  | _ => unexpectedColumn

def value (f : Shift → RosterCell) : RowFunction RosterCell (Contribution RosterCell) :=
  own (ofShift fun s => .value (f s))

def sumHours : Collector RosterCell where
  kind := .sum word
  contribution := own (ofShift fun s => .whole s.hours)
  present
    | .number n => .number n.toNat
    | _ => .number 0

def presentExtreme : Collected RosterCell → RosterCell
  | .extreme (some (.number n)) => .maybeNumber (some n)
  | _ => .maybeNumber none

def earliestStart : Collector RosterCell :=
  ⟨.min, value fun s => .number s.start, presentExtreme⟩

def latestFinish : Collector RosterCell :=
  ⟨.max, value fun s => .number s.finish, presentExtreme⟩

def number? : RosterCell → Option Nat
  | number n => some n
  | _ => none

def maybeNumber? : RosterCell → Option (Option Nat)
  | maybeNumber n => some n
  | _ => none

def listIds : Collector RosterCell where
  kind := .toList
  contribution := value fun s => .number s.id
  present
    | .values vs => .numbers (vs.filterMap number?)
    | _ => .numbers []

def meanStart : Collector RosterCell where
  kind := .average
  contribution := own (ofShift fun s => .decimal (Decimal.ofWhole (.clamp s.start) 0 Decimal.noPlaces))
  present
    | .mean x => .mean x
    | _ => .mean none

def countSkills : Collector RosterCell where
  kind := .countDistinct
  contribution := value fun s => .maybeText s.requiredSkill
  present
    | .number n => .count n.toNat
    | _ => .count 0

def setOfEmployees : Collector RosterCell where
  kind := .toSet
  contribution := value fun s => .maybeNumber s.employee
  present
    | .values vs => .maybeNumbers (vs.filterMap maybeNumber?)
    | _ => .maybeNumbers []

def isOvertime (row : Row RosterCell) : Except Fault Bool :=
  match row with
  | [_, .number n] => .ok (16 < n)
  | _ => unexpectedColumn

def overtime (row : Row RosterCell) : Except Fault MatchWeight :=
  match row with
  | [_, .number n] => .ok (.ofInt ((n : Int) - 16))
  | _ => unexpectedColumn

/-- A mean in thousandths, halves rounded away from zero. -/
def inThousandths (row : Row RosterCell) : Except Fault RosterCell :=
  match row with
  | [.mean x, _] =>
      .ok (.maybeWhole (x.map fun b => .clamp (Binary64.mul b (.nearest 1000)).round))
  | _ => unexpectedColumn

def columnAt (i : Nat) : RowFunction RosterCell RosterCell := own fun row =>
  match row[i]? with
  | some cell => .ok cell
  | none => unexpectedColumn

def members : RowFunction RosterCell (List RosterCell) := own fun row =>
  match row with
  | [.maybeNumbers ns] => .ok (ns.map .maybeNumber)
  | _ => unexpectedColumn

def skillsOf : RowFunction RosterCell (List RosterCell) := own fun row =>
  match row with
  | [.texts ss] => .ok (ss.map .text)
  | _ => unexpectedColumn

/-- Whether the shift in the last column requires the skill before it. -/
def requiresSkill (row : Row RosterCell) : Except Fault Bool :=
  match row with
  | [_, .text skill, .shift s] => .ok (s.requiredSkill = some skill)
  | _ => unexpectedColumn

def ofCandidate {α : Type} (f : Nat → Shift → α) (row : Row RosterCell) : Except Fault α :=
  match row with
  | .number n :: _ :: .shift s :: _ => .ok (f n s)
  | _ => unexpectedColumn

/-- The signed numbers of 32 bits. -/
def signedWord : IntRange := .signed 32

/-- The hours of the shift less the number of skills of the second employee, in 32 bits. -/
def candidateWeight (row : Row RosterCell) : Except Fault MatchWeight :=
  match row with
  | [_, _, .shift s, .employee e] => do
      let hours := (s.hours : Int).bmod (2 ^ (32 : Nat))
      return .ofInt (← checked .subtract signedWord (hours - e.skills.length))
  | _ => unexpectedColumn

end RosterCell

namespace RosterCell

def soft (n : Int) : HardSoftScore := ⟨0, .clamp n⟩

def finish (s : Stream) (name : String) (weight : HardSoftScore) (impact : Impact) :
    Declaring RosterCell HardSoftScore Constraint :=
  constraint s ⟨"", name⟩ weight { impact }

def overlappingShifts (scope : String) : Declaring RosterCell HardSoftScore Constraint := do
  let pairs ← forEachUniquePair (shiftType scope)
    (.and (.equal employeeOfShift employeeOfShift)
      (.overlapping startOfShift finishOfShift startOfShift finishOfShift))
  finish pairs "Overlapping shifts" .oneHard .penalty

def missingSkill (scope : String) : Declaring RosterCell HardSoftScore Constraint := do
  let shifts ← forEach (shiftType scope)
  let demanding ← filter shifts (shiftTest fun s => s.requiredSkill.isSome)
  let employees ← forEach (employeeType scope)
  let lacking ← ifNotExists demanding employees
    (.and (.equal employeeOfShift (own (ofEmployee fun e => .maybeNumber (some e.id))))
      (.filtering (own hasRequiredSkill)))
  finish lacking "Missing skill" .oneHard .penalty

def overtimeConstraint (scope : String) : Declaring RosterCell HardSoftScore Constraint := do
  let shifts ← forEach (shiftType scope)
  let byEmployee ← group shifts [.key employeeOfShift, .collector sumHours]
  let excessive ← filter byEmployee (own isOvertime)
  constraint excessive ⟨"", "Overtime"⟩ .oneSoft { impact := .penalty, weigher := some overtime }

def unassignedShift (scope : String) : Declaring RosterCell HardSoftScore Constraint := do
  let shifts ← forEachIncludingUnassigned (shiftType scope)
  let unassigned ← filter shifts (shiftTest fun s => s.employee.isNone)
  finish unassigned "Unassigned shift" (soft 10) .penalty

def employeesUsed (scope : String) : Declaring RosterCell HardSoftScore Constraint := do
  let shifts ← forEach (shiftType scope)
  let employees ← map shifts [employeeOfShift]
  let once ← distinct employees
  finish once "Employees used" (soft 2) .penalty

def unsocialHours (scope : String) : Declaring RosterCell HardSoftScore Constraint := do
  let shifts ← forEach (shiftType scope)
  let early ← filter shifts (shiftTest fun s => s.start < 6)
  let shifts ← forEach (shiftType scope)
  let late ← filter shifts (shiftTest fun s => 22 < s.finish)
  let both ← concat early late
  finish both "Unsocial hours" (soft 3) .penalty

def statistic (s : Stream) (name : String) (weight : HardSoftScore) (impact : Impact) :
    Declaring RosterCell HardSoftScore Constraint :=
  constraint s ⟨"stats", name⟩ weight { impact }

def span (scope : String) : Declaring RosterCell HardSoftScore Constraint := do
  let shifts ← forEach (shiftType scope)
  let spans ← group shifts
    [.key employeeOfShift, .collector earliestStart, .collector latestFinish, .collector listIds]
  statistic spans "Span" .oneHard .penalty

def meanStartConstraint (scope : String) : Declaring RosterCell HardSoftScore Constraint := do
  let shifts ← forEach (shiftType scope)
  let means ← group shifts [.collector meanStart, .collector countSkills]
  let rounded ← map means [own inThousandths, columnAt 1]
  statistic rounded "Mean start" .oneSoft .reward

def employeesConstraint (scope : String) : Declaring RosterCell HardSoftScore Constraint := do
  let shifts ← forEach (shiftType scope)
  let sets ← group shifts [.collector setOfEmployees]
  let employees ← flattenLast sets members
  statistic employees "Employees" (soft 5) .penalty

/-- The employees' ids with each of their skills. -/
def skillStream (scope : String) : Declaring RosterCell HardSoftScore Stream := do
  let employees ← forEach (employeeType scope)
  let withSkills ← map employees [idOfEmployee, own (ofEmployee fun e => .texts e.skills)]
  flattenLast withSkills skillsOf

end RosterCell

open RosterCell

def roster (scope : String) : Declaring RosterCell HardSoftScore (List Constraint) := do
  return [← overlappingShifts scope, ← missingSkill scope, ← overtimeConstraint scope,
    ← unassignedShift scope, ← employeesUsed scope, ← unsocialHours scope]

def rosterStatistics (scope : String) : Declaring RosterCell HardSoftScore (List Constraint) := do
  return [← span scope, ← meanStartConstraint scope, ← employeesConstraint scope]

def rosterSkills (scope : String) : Declaring RosterCell HardSoftScore (List Constraint) := do
  let skills ← skillStream scope
  let allShifts ← forEachIncludingUnassigned (shiftType scope)
  let demands ← join skills allShifts (.filtering (own requiresSkill))
  let once ← distinct skills
  let c ← finish once "Skills" .oneSoft .reward
  let employees ← forEach (employeeType scope)
  let candidates ← join demands employees
    (.compare .lessEqual (columnAt 0) idOfEmployee)
  let d ← constraint candidates ⟨"", "Candidates"⟩ ⟨1, 1⟩
    { impact := .penalty, weigher := some candidateWeight }
  let later ← existenceOther true false demands (shiftType scope)
    (.compare .greater (own (ofCandidate fun _ s => .number s.finish)) startOfShift)
  let e ← finish later "Later start" (soft 7) .penalty
  let free ← existenceOther false true demands (shiftType scope)
    (.and (.compare .greaterEqual (own (ofCandidate fun _ s => .number s.start)) finishOfShift)
      (.equal (own (ofCandidate fun n _ => .maybeNumber (some n))) employeeOfShift))
  let f ← finish free "No earlier shift" (soft 11) .reward
  return [c, d, e, f]

end ConstraintScoring.Planning
