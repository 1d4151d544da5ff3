import ConstraintScoring.Cell

/-!
# Tallies

A tally counts values, in ascending order. Of equal values the first one counted is kept until
the count is back at zero.
-/

namespace ConstraintScoring

-- The sum of no numbers is the zero of the core library, whatever else is imported.
attribute [local instance (2000)] Zero.ofOfNat0

structure Tally (V : Type) where
  counts : List (V × Nat)

namespace Tally

variable {V : Type} [Cell V]

def empty : Tally V := ⟨[]⟩

def insertIn (v : V) : List (V × Nat) → List (V × Nat)
  | [] => [(v, 1)]
  | e :: es =>
      match compare v e.1 with
      | .lt => (v, 1) :: e :: es
      | .eq => (e.1, e.2 + 1) :: es
      | .gt => e :: insertIn v es

def insert (t : Tally V) (v : V) : Tally V := ⟨insertIn v t.counts⟩

def removeIn (v : V) : List (V × Nat) → List (V × Nat)
  | [] => []
  | e :: es =>
      if compare v e.1 == .eq then
        if e.2 ≤ 1 then es else (e.1, e.2 - 1) :: es
      else e :: removeIn v es

/-- Takes one occurrence away; a value that is not there changes nothing. -/
def remove (t : Tally V) (v : V) : Tally V := ⟨removeIn v t.counts⟩

def values (t : Tally V) : List V := t.counts.map (·.1)

def least? (t : Tally V) : Option V := t.values.head?

def greatest? (t : Tally V) : Option V := t.values.getLast?

end Tally

/-- Values in ascending order, repetitions included. -/
structure SortedList (V : Type) where
  values : List V

namespace SortedList

variable {V : Type} [Cell V]

def empty : SortedList V := ⟨[]⟩

/-- Puts a value behind those that are not greater. -/
def insert (s : SortedList V) (v : V) : SortedList V :=
  let small := s.values.takeWhile fun w => compare w v != .gt
  ⟨small ++ v :: s.values.drop small.length⟩

/-- Takes away the last of the values equal to `v`, if there is one. -/
def remove (s : SortedList V) (v : V) : SortedList V :=
  let small := s.values.takeWhile fun w => compare w v != .gt
  match small.getLast? with
  | some w =>
      if compare w v == .eq then ⟨small.dropLast ++ s.values.drop small.length⟩ else s
  | none => s

end SortedList

end ConstraintScoring
