import ConstraintScoring.Planning.Meetings
import ConstraintScoring.Score.HardSoftDecimal
import ConstraintScoring.Score.Simple
import ConstraintScoring.Stream.Factory

/-!
# Constraints on meetings

Choices of constraints for planning meetings, each a provider for a session factory.
-/

namespace ConstraintScoring.Planning

open ConstraintFactory

namespace MeetingCell

def firstColumn (row : Row MeetingCell) : Except Fault MeetingCell :=
  match row with
  | cell :: _ => .ok cell
  | _ => unexpectedColumn

def roomOfMeeting (row : Row MeetingCell) : Except Fault MeetingCell :=
  match row with
  | [.meeting m] => .ok (.maybeLetter m.room)
  | _ => unexpectedColumn

def idOfRoom (row : Row MeetingCell) : Except Fault MeetingCell :=
  match row with
  | [.room r] => .ok (.maybeLetter (some r.id))
  | _ => unexpectedColumn

def countMeetings : Collector MeetingCell where
  kind := .count
  contribution := presence
  present
    | .number n => .count n.toNat
    | _ => .count 0

/-- By how many meetings more than its capacity a room is used. -/
def roomExcess (row : Row MeetingCell) : Except Fault Int :=
  match row with
  | [_, .count n, .room r] => .ok ((n : Int) - r.capacity)
  | _ => unexpectedColumn

def attendees (row : Row MeetingCell) : Except Fault Nat :=
  match row with
  | .meeting m :: _ => .ok m.attendees
  | _ => unexpectedColumn

def capacity (row : Row MeetingCell) : Except Fault Nat :=
  match row with
  | [.room r] => .ok r.capacity
  | _ => unexpectedColumn

def attendeesAbove (n : Nat) (row : Row MeetingCell) : Except Fault Bool := do
  return n < (← attendees row)

def withinReason (row : Row MeetingCell) : Except Fault Bool := do
  if 100 ≤ (← attendees row) then throw (.raised "too many attendees") else return true

/-- Whether a meeting has more attendees than its room holds with `extra` more seats. -/
def overfills (extra : Nat) (row : Row MeetingCell) : Except Fault Bool :=
  match row with
  | [.meeting m, .room r] => .ok (r.capacity + extra < m.attendees)
  | _ => unexpectedColumn

def justifyLarge (row : Row MeetingCell) (impact : SimpleScore) : Except Fault Justification :=
  match row with
  | [.meeting m] =>
      .ok ⟨[EntityRef.ofCell (meeting m)], s!"meeting {m.id} costs " ++ Score.text impact⟩
  | _ => unexpectedColumn

/-- Indicts the room of a meeting, whatever its capacity. -/
def indictRoom (row : Row MeetingCell) : Except Fault (List EntityRef) :=
  match row with
  | [.meeting m] => .ok (m.room.toList.map fun c => EntityRef.ofCell (room ⟨c, 0⟩))
  | _ => unexpectedColumn

end MeetingCell

open MeetingCell

def named (name : String) : ConstraintRef := ⟨"", name⟩

def weighted {V S : Type} (impact : Impact) (weigh : Row V → Except Fault MatchWeight) :
    ConstraintTerms V S :=
  { impact, weigher := some weigh }

def roomCapacity (scope : String) : Declaring MeetingCell SimpleScore (List Constraint) := do
  let meetings ← forEach (meetingType scope)
  let byRoom ← group meetings [.key (own roomOfMeeting), .collector countMeetings]
  let rooms ← forEach (roomType scope)
  let joined ← join byRoom rooms (.equal (own firstColumn) (own idOfRoom))
  let excessive ← filter joined (own fun row => do return 0 < (← roomExcess row))
  let c ← constraint excessive (named "Room capacity") .one
    (weighted .penalty fun row => do return .ofInt (← roomExcess row))
  return [c]

def meetingsAndRooms (scope : String) : Declaring MeetingCell SimpleScore (List Constraint) := do
  let meetings ← forEach (meetingType scope)
  let c ← constraint meetings (named "Meetings") .one { impact := .penalty }
  let rooms ← forEach (roomType scope)
  let d ← constraint rooms ⟨"rooms", "Rooms"⟩ .one { impact := .reward }
  return [c, d]

def fragile (scope : String) : Declaring MeetingCell SimpleScore (List Constraint) := do
  let meetings ← forEach (meetingType scope)
  let checked ← filter meetings (own withinReason)
  let c ← constraint checked (named "Fragile") .one { impact := .penalty }
  return [c]

def largeMeeting (scope : String) : Declaring MeetingCell SimpleScore (List Constraint) := do
  let meetings ← forEach (meetingType scope)
  let large ← filter meetings (own (attendeesAbove 10))
  let c ← constraint large (named "Large meeting") .one
    { impact := .penalty
      weigher := some fun row => do return .ofInt ((← attendees row : Nat) - 10 : Int)
      justifier := some justifyLarge
      indicter := some indictRoom }
  return [c]

/-- All but the last step is the same for every `extra`. -/
def overBy (scope : String) (extra : Nat) : Declaring MeetingCell SimpleScore Constraint := do
  let meetings ← forEach (meetingType scope)
  let large ← filter meetings (shared "large" (attendeesAbove 5))
  let rooms ← forEach (roomType scope)
  let joined ← join large rooms
    (.equal (shared "room of meeting" roomOfMeeting) (shared "id of room" idOfRoom))
  let excessive ← filter joined (own (overfills extra))
  constraint excessive (named s!"Over by {extra}") ⟨.clamp (extra + 1)⟩
    (weighted .penalty fun row => do return .ofInt (← attendees row : Nat))

def sharedSteps (scope : String) : Declaring MeetingCell SimpleScore (List Constraint) := do
  return [← overBy scope 0, ← overBy scope 1, ← overBy scope 2]

def thousandths (row : Row MeetingCell) : Except Fault MatchWeight := do
  return .decimal (Decimal.ofWhole (.clamp (← attendees row : Nat)) 3 (by decide))

def millionths (row : Row MeetingCell) : Except Fault MatchWeight := do
  return .decimal (Decimal.ofWhole (.clamp ((← attendees row : Nat) - 50 : Int)) 6 (by decide))

def decimals (scope : String) : Declaring MeetingCell HardSoftDecimalScore (List Constraint) := do
  let meetings ← forEach (meetingType scope)
  let c ← constraint meetings (named "Thousandths") .oneSoft (weighted .penalty thousandths)
  let meetings ← forEach (meetingType scope)
  let d ← constraint meetings (named "Tiny") ⟨.clamp 3, .clamp (-7)⟩ (weighted .reward millionths)
  let rooms ← forEach (roomType scope)
  let e ← constraint rooms (named "Capacity") ⟨.clamp 200000, 0⟩
    (weighted .reward fun row => do return .ofInt (← capacity row : Nat))
  return [c, d, e]

end ConstraintScoring.Planning
