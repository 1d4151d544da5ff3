/-!
# Rounding a quotient to a whole number

Quotients are rounded to the nearest whole number; a tie goes to the even neighbour or away from
zero. Both rules treat a number and its negation alike.
-/

namespace ConstraintScoring

inductive Tie where
  | toEven
  | awayFromZero
deriving DecidableEq

/-- Whether a remainder `r` of a division by `d` that left the quotient `q` rounds up. -/
def Tie.roundsUp (tie : Tie) (q r d : Nat) : Bool :=
  d < 2 * r || (2 * r == d && (tie == .awayFromZero || q % 2 == 1))

def roundQuotient (tie : Tie) (n d : Nat) : Nat :=
  n / d + if tie.roundsUp (n / d) (n % d) d then 1 else 0

/-- The whole number nearest to `n / d`. -/
def roundDiv (tie : Tie) (n : Int) (d : Nat) : Int :=
  if n < 0 then -(roundQuotient tie n.natAbs d : Int) else roundQuotient tie n.natAbs d

@[simp] theorem roundQuotient_one (tie : Tie) (n : Nat) : roundQuotient tie n 1 = n := by
  cases tie <;> simp [roundQuotient, Tie.roundsUp, Nat.mod_one]

@[simp] theorem roundDiv_one (tie : Tie) (n : Int) : roundDiv tie n 1 = n := by
  unfold roundDiv
  rw [roundQuotient_one]
  split <;> omega

@[simp] theorem roundQuotient_zero (tie : Tie) {d : Nat} (h : 0 < d) :
    roundQuotient tie 0 d = 0 := by
  have hd : ¬ 0 = d := by omega
  simp [roundQuotient, Tie.roundsUp, hd]

theorem roundDiv_neg (tie : Tie) (n : Int) {d : Nat} (hd : 0 < d) :
    roundDiv tie (-n) d = -roundDiv tie n d := by
  unfold roundDiv
  rw [Int.natAbs_neg]
  rcases Int.lt_trichotomy n 0 with h | h | h
  · rw [if_neg (by omega), if_pos h, Int.neg_neg]
  · subst h
    simp [hd]
  · rw [if_pos (by omega), if_neg (by omega)]

end ConstraintScoring
