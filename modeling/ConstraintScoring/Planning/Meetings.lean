import ConstraintScoring.Domain
import ConstraintScoring.Planning.Column

/-!
# Meetings in rooms

Meetings are planned by giving each a room; a room is a letter with a capacity.
-/

namespace ConstraintScoring.Planning

structure Room where
  id : Char
  capacity : Nat
deriving DecidableEq

structure Meeting where
  id : Nat
  room : Option Char
  attendees : Nat
deriving DecidableEq

def letterLabel (c : Option Char) : String := Text.optional (c.map Text.escapedChar)

def Room.label (r : Room) : String :=
  "Room \x7b id: " ++ Text.escapedChar r.id ++ ", capacity: " ++ toString r.capacity ++ " \x7d"

def Meeting.label (m : Meeting) : String :=
  "Meeting \x7b id: " ++ toString m.id ++ ", room: " ++ letterLabel m.room ++ ", attendees: " ++
    toString m.attendees ++ " \x7d"

inductive MeetingCell where
  | room (r : Room)
  | meeting (m : Meeting)
  | number (n : Nat)
  | count (n : Nat)
  | letter (c : Char)
  | maybeLetter (c : Option Char)

namespace MeetingCell

def typeName : MeetingCell → String
  | room _ => "Room"
  | meeting _ => "Meeting"
  | number _ => "u32"
  | count _ => "usize"
  | letter _ => "char"
  | maybeLetter _ => "Option<char>"

def label : MeetingCell → String
  | room r => r.label
  | meeting m => m.label
  | number n => toString n
  | count n => toString n
  | letter c => Text.escapedChar c
  | maybeLetter c => letterLabel c

/-- Tells cells apart; letters and numbers are ordered as usual. -/
def code : MeetingCell → List Nat
  | room r => [0, r.id.toNat, r.capacity]
  | meeting m => 1 :: m.id :: optionCode (m.room.map Char.toNat) ++ [m.attendees]
  | number n => [2, n]
  | count n => [3, n]
  | letter c => [4, c.toNat]
  | maybeLetter c => 5 :: optionCode (c.map Char.toNat)

instance : Cell MeetingCell where
  compare a b := compareCodes a.code b.code
  typeName := typeName
  label := label

end MeetingCell

/-- The types of the facts, within the scope that their names are given in. -/
def roomType (scope : String) : String := scope ++ "Room"

def meetingType (scope : String) : String := scope ++ "Meeting"

def Room.fact (scope : String) (r : Room) : Fact MeetingCell :=
  ⟨roomType scope, .letter r.id, .room r⟩

def Meeting.fact (scope : String) (m : Meeting) : Fact MeetingCell :=
  ⟨meetingType scope, .number m.id, .meeting m⟩

def meetingPlanningId : MeetingCell → MeetingCell
  | .room r => .letter r.id
  | .meeting m => .number m.id
  | cell => cell

def hasRoom : MeetingCell → Except Fault Bool
  | .meeting m => .ok m.room.isSome
  | _ => unexpectedColumn

def roomClass (scope : String) : FactClass MeetingCell :=
  ⟨roomType scope, none, meetingPlanningId⟩

def meetingClass (scope : String) : FactClass MeetingCell :=
  ⟨meetingType scope, some hasRoom, meetingPlanningId⟩

/-- Rooms as problem facts, and meetings that are assigned once they have a room. -/
def meetingDomain (scope : String) : DomainModel MeetingCell :=
  (DomainModel.empty.withClass (roomClass scope)).withClass (meetingClass scope)

end ConstraintScoring.Planning
