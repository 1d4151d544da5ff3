import ConstraintScoring.Stream.Group
import ConstraintScoring.Stream.Joiner

/-!
# Coins

A small type of cells, two of which may be equal and still not the same.
-/

namespace ConstraintScoring

/-- A coin. Coins of one worth are equal, whichever side is up. -/
structure Coin where
  worth : Nat
  heads : Bool
deriving DecidableEq

namespace Coin

instance : Cell Coin where
  compare a b := compare a.worth b.worth
  typeName _ := "Coin"
  label c := toString c.worth

instance : Std.TransOrd Coin where
  eq_swap {_ _} := Std.OrientedOrd.eq_swap (α := Nat)
  isLE_trans {_ _ _} := Std.TransOrd.isLE_trans (α := Nat)

/-- Coins without worth are no good. -/
def isGood : RowFunction Coin Bool := ⟨none, fun row => .ok (row.all fun c => c.worth != 0)⟩

def worthOf : RowFunction Coin Coin :=
  ⟨none, fun
    | c :: _ => .ok c
    | [] => .error (.raised "no coin")⟩

/-- A coin that tells odd worths from even ones. -/
def parityOf : RowFunction Coin Coin :=
  ⟨none, fun
    | c :: _ => .ok ⟨c.worth % 2, true⟩
    | [] => .error (.raised "no coin")⟩

/-- Coins of one worth belong together. -/
def sameWorth : JoinIndexer Coin := (Joiner.equal worthOf worthOf).compile

/-- A coin that is worth the number of coins. -/
def number : Collector Coin :=
  ⟨.count, ⟨none, fun _ => .ok .presence⟩, fun
    | .number n => ⟨n.toNat, true⟩
    | _ => ⟨0, true⟩⟩

/-- The worth of a coin as a decimal. -/
def worthDecimal (c : Coin) : Decimal := .ofWhole (.clamp c.worth) 0 (Nat.zero_le _)

/-- A coin that is worth the mean of the worths, without what is behind the point. -/
def mean : Collector Coin :=
  ⟨.average, ⟨none, fun
    | c :: _ => .ok (.decimal c.worthDecimal)
    | [] => .error (.raised "no coin")⟩, fun
    | .mean (some x) => ⟨x.value.floor.toNat, true⟩
    | _ => ⟨0, true⟩⟩

/-- Collects the coins themselves, and shows the first of those that it shows. -/
def gathered (kind : CollectorKind) : Collector Coin :=
  ⟨kind, ⟨none, fun
    | c :: _ => .ok (.value c)
    | [] => .error (.raised "no coin")⟩, fun
    | .extreme (some c) => c
    | .values (c :: _) => c
    | _ => ⟨0, true⟩⟩

end Coin

end ConstraintScoring
