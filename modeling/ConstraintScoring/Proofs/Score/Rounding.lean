import ConstraintScoring.Proofs.Decimal.Exact
import ConstraintScoring.Score.Simple
import Mathlib.Data.Rat.Floor
import Mathlib.Tactic.Linarith
import Mathlib.Tactic.Positivity

/-!
# Levels times a decimal

A level times a decimal is meant to be the exact product, rounded once. The product is first written
as a decimal, though, and one that does not fit is rounded there, half to even. This shows in a
single case: where the decimal is a half that the exact product falls short of, the second rounding
goes up although the product is below the half.
-/

namespace ConstraintScoring

/-! ## Rounding a quotient twice -/

theorem roundQuotient_cases (tie : Tie) (n d : Nat) :
    (roundQuotient tie n d = n / d + 1 ∧ d ≤ 2 * (n % d)) ∨
      (roundQuotient tie n d = n / d ∧ 2 * (n % d) ≤ d ∧
        (tie = .awayFromZero → 2 * (n % d) ≠ d)) := by
  unfold roundQuotient Tie.roundsUp
  split
  · rename_i hup
    simp only [Bool.or_eq_true, decide_eq_true_eq, beq_iff_eq, Bool.and_eq_true] at hup
    exact Or.inl ⟨rfl, by omega⟩
  · rename_i hdown
    simp only [Bool.or_eq_true, decide_eq_true_eq, beq_iff_eq, Bool.and_eq_true, not_or,
      not_and] at hdown
    exact Or.inr ⟨rfl, by omega, fun htie h => (hdown.2 h).1 htie⟩

/-- A rounded quotient is off by a half at most. -/
theorem roundQuotient_near (tie : Tie) (n : Nat) {d : Nat} (hd : 0 < d) :
    2 * (roundQuotient tie n d * d) ≤ 2 * n + d ∧ 2 * n ≤ 2 * (roundQuotient tie n d * d) + d := by
  have hdiv := Nat.div_add_mod' n d
  have hlt := Nat.mod_lt n hd
  rcases roundQuotient_cases tie n d with ⟨hround, hup⟩ | ⟨hround, hdown, -⟩
  · rw [hround, Nat.add_one_mul (n / d)]
    omega
  · rw [hround]
    omega

/-- Multiples that are less than a unit apart are equal. -/
theorem eq_of_mul_near {m n d : Nat} (h : m * d < n * d + d) (h' : n * d < m * d + d) : m = n := by
  rw [← Nat.succ_mul] at h h'
  exact Nat.le_antisymm (Nat.lt_succ_iff.mp (Nat.lt_of_mul_lt_mul_right h))
    (Nat.lt_succ_iff.mp (Nat.lt_of_mul_lt_mul_right h'))

/-- Halves go up: only a number in the unit around `m`, its end left out, is rounded to `m`. -/
theorem roundQuotient_away_iff {n d m : Nat} (hd : 0 < d) :
    roundQuotient .awayFromZero n d = m ↔ 2 * (m * d) ≤ 2 * n + d ∧ 2 * n < 2 * (m * d) + d := by
  have hdiv := Nat.div_add_mod' n d
  have hlt := Nat.mod_lt n hd
  have hself : 2 * n < 2 * (roundQuotient .awayFromZero n d * d) + d := by
    rcases roundQuotient_cases .awayFromZero n d with ⟨hround, hup⟩ | ⟨hround, hdown, htie⟩
    · rw [hround, Nat.add_one_mul (n / d)]
      omega
    · have := htie rfl
      rw [hround]
      omega
  constructor
  · rintro rfl
    exact ⟨(roundQuotient_near _ n hd).1, hself⟩
  · rintro ⟨hlow, hhigh⟩
    have hlow' := (roundQuotient_near .awayFromZero n hd).1
    exact eq_of_mul_near (d := d) (by omega) (by omega)

section Twice

variable {n q a b : Nat}

/-- A half that the number falls short of is rounded up, the number itself down. -/
theorem roundQuotient_of_short (hb : 0 < b) (ha : 0 < a) (hhigh : 2 * (q * a) ≤ 2 * n + a)
    (hhalf : q % (2 * b) = b) (hshort : n < q * a) :
    roundQuotient .awayFromZero n (a * (2 * b)) = q / (2 * b) ∧
      roundQuotient .awayFromZero q (2 * b) = q / (2 * b) + 1 := by
  have hsplit : q = 2 * (q / (2 * b) * b) + b := by
    have := Nat.div_add_mod' q (2 * b)
    rw [hhalf, Nat.mul_left_comm (q / _)] at this
    exact this.symm
  have hq : q * a = 2 * (q / (2 * b) * b * a) + b * a := by
    conv_lhs => rw [hsplit]
    ring
  have hunits : q / (2 * b) * (a * (2 * b)) = 2 * (q / (2 * b) * b * a) := by ring
  have hunit : a * (2 * b) = 2 * (b * a) := by ring
  constructor
  · have := Nat.le_mul_of_pos_left a hb
    rw [roundQuotient_away_iff (by positivity), hunits]
    omega
  · rw [roundQuotient_away_iff (by omega), Nat.add_one_mul (q / (2 * b)), Nat.mul_left_comm (q / _)]
    omega

/-- A number that is half a unit above another multiple leaves half a unit. -/
theorem mod_of_half {m : Nat} (hb : 0 < b) (h : 2 * (m * b) = q + b) : q % (2 * b) = b := by
  obtain ⟨k, rfl⟩ : ∃ k, m = k + 1 := Nat.exists_eq_succ_of_ne_zero fun h0 => by
    rw [h0, Nat.zero_mul] at h
    omega
  have hk : q = b + 2 * b * k := by
    rw [Nat.add_one_mul k] at h
    have : 2 * b * k = 2 * (k * b) := by ring
    omega
  rw [hk, Nat.add_mul_mod_self_left, Nat.mod_eq_of_lt (by omega)]

/-- Otherwise rounding twice is rounding once. -/
theorem roundQuotient_of_not_short (hb : 0 < b) (ha : 0 < a) (hlow : 2 * n ≤ 2 * (q * a) + a)
    (hhigh : 2 * (q * a) ≤ 2 * n + a) (hother : ¬ (q % (2 * b) = b ∧ n < q * a)) :
    roundQuotient .awayFromZero n (a * (2 * b)) = roundQuotient .awayFromZero q (2 * b) := by
  obtain ⟨m, hm⟩ : ∃ m, roundQuotient .awayFromZero q (2 * b) = m := ⟨_, rfl⟩
  obtain ⟨hmlow, hmhigh⟩ := (roundQuotient_away_iff (by omega)).mp hm
  rw [Nat.mul_left_comm m] at hmlow hmhigh
  have hunits : m * (a * (2 * b)) = 2 * (m * b * a) := by ring
  have hunit : a * (2 * b) = 2 * (b * a) := by ring
  have hbelow : q * a + a ≤ 2 * (m * b * a) + b * a := by
    have := Nat.mul_le_mul_right a (show q + 1 ≤ 2 * (m * b) + b by omega)
    rwa [Nat.add_one_mul, Nat.add_mul, Nat.mul_assoc 2] at this
  have habove : 2 * (m * b * a) ≤ n + b * a := by
    rcases Nat.lt_or_eq_of_le (show 2 * (m * b) ≤ q + b by omega) with hlt | heq
    · have := Nat.mul_le_mul_right a (Nat.succ_le_of_lt hlt)
      rw [Nat.succ_mul, Nat.add_mul, Nat.mul_assoc 2] at this
      omega
    · have hq := congrArg (· * a) heq
      simp only [Nat.add_mul, Nat.mul_assoc 2] at hq
      have := Nat.not_lt.mp fun hlt => hother ⟨mod_of_half hb heq, hlt⟩
      omega
  rw [hm, roundQuotient_away_iff (by positivity), hunits]
  omega

end Twice

/-- Rounding to even first matters only where it leads to a half from below. -/
theorem roundQuotient_twice (n : Nat) {a b : Nat} (ha : 0 < a) (hb : 0 < b) :
    roundQuotient .awayFromZero (roundQuotient .toEven n a) (2 * b) =
      roundQuotient .awayFromZero n (a * (2 * b)) +
        if roundQuotient .toEven n a % (2 * b) = b ∧ n < roundQuotient .toEven n a * a
        then 1 else 0 := by
  obtain ⟨hhigh, hlow⟩ := roundQuotient_near .toEven n ha
  split
  · rename_i hshort
    obtain ⟨honce, htwice⟩ := roundQuotient_of_short hb ha hhigh hshort.1 hshort.2
    rw [honce, htwice]
  · rename_i hother
    rw [roundQuotient_of_not_short hb ha hlow hhigh hother, Nat.add_zero]

/-! ## Rounding exact numbers -/

/-- The nearest whole number, halves away from zero. -/
def nearestWhole (x : Rat) : Int := if x < 0 then -round (-x) else round x

theorem nearestWhole_neg (x : Rat) : nearestWhole (-x) = -nearestWhole x := by
  unfold nearestWhole
  rcases lt_trichotomy x 0 with h | rfl | h
  · rw [if_neg (by linarith), if_pos h, neg_neg]
  · simp
  · rw [if_pos (by linarith), if_neg (by linarith), neg_neg]

theorem nearestWhole_div (n : Nat) {d : Nat} (hd : 0 < d) :
    nearestWhole ((n : Rat) / d) = roundQuotient .awayFromZero n d := by
  have hpos : (0 : Rat) < d := by exact_mod_cast hd
  obtain ⟨hlow, hhigh⟩ := (roundQuotient_away_iff (n := n) hd).mp rfl
  generalize roundQuotient .awayFromZero n d = m at *
  have hlow' : (2 * (m * d) : Rat) ≤ 2 * n + d := by exact_mod_cast hlow
  have hhigh' : (2 * n : Rat) < 2 * (m * d) + d := by exact_mod_cast hhigh
  unfold nearestWhole
  rw [if_neg (not_lt.mpr (by positivity)), round_eq, Int.floor_eq_iff, Int.cast_natCast]
  constructor
  · rw [← sub_le_iff_le_add, le_div_iff₀ hpos]
    linarith
  · rw [← lt_sub_iff_add_lt, div_lt_iff₀ hpos]
    linarith

namespace Decimal

/-- The number without its sign. -/
theorem abs_toRat (d : Decimal) : |d.toRat| = (d.magnitude : Rat) / (10 ^ d.scale : Nat) := by
  unfold toRat
  rw [abs_div, ← Int.cast_abs, Int.abs_eq_natAbs, natAbs_coefficient, Nat.abs_cast,
    Int.cast_natCast]

theorem toRat_eq (d : Decimal) : d.toRat =
    if d.negative then -((d.magnitude : Rat) / (10 ^ d.scale : Nat))
    else (d.magnitude : Rat) / (10 ^ d.scale : Nat) := by
  unfold toRat coefficient
  split
  · rw [Int.cast_neg, Int.cast_natCast, neg_div]
  · rw [Int.cast_natCast]

theorem round_eq (d : Decimal) : d.round =
    if d.negative then -(roundQuotient .awayFromZero d.magnitude (10 ^ d.scale) : Int)
    else roundQuotient .awayFromZero d.magnitude (10 ^ d.scale) := by
  have hpos : 0 < 10 ^ d.scale := Nat.pow_pos (by decide)
  unfold round coefficient
  split
  · rw [roundDiv_neg _ _ hpos]
    rfl
  · rfl

theorem findSome?_range_first {β : Type} {f : Nat → Option β} {b : β} :
    ∀ {n : Nat}, (List.range n).findSome? f = some b →
      ∃ i < n, f i = some b ∧ ∀ j < i, f j = none
  | 0, h => by cases h
  | n + 1, h => by
      rw [List.range_succ, List.findSome?_append, Option.or_eq_some_iff] at h
      rcases h with h | ⟨hnone, h⟩
      · obtain ⟨i, hi, hfound, hbefore⟩ := findSome?_range_first h
        exact ⟨i, by omega, hfound, hbefore⟩
      · refine ⟨n, by omega, by simpa using h, fun j hj => ?_⟩
        exact List.findSome?_eq_none_iff.mp hnone j (List.mem_range.mpr hj)

theorem le_of_ofSigned?_eq_none {negative : Bool} {m s : Nat} (hs : s ≤ 28)
    (h : ofSigned? negative m s = none) : 79228162514264337593543950336 ≤ m := by
  unfold ofSigned? at h
  split at h
  · cases h
  · omega

/-- A decimal that was made to fit has lost places only where keeping one more was too much. -/
theorem fitSigned?_eq_some {negative : Bool} {m s : Nat} (hs : s ≤ 28) {p : Decimal}
    (h : fitSigned? negative m s = some p) :
    p.negative = negative ∧ ∃ k ≤ s, p.scale = s - k ∧
      p.magnitude = roundQuotient .toEven m (10 ^ k) ∧
      ∀ j < k, 79228162514264337593543950336 ≤ roundQuotient .toEven m (10 ^ j) := by
  obtain ⟨k, hk, hfound, hbefore⟩ := findSome?_range_first h
  rw [if_pos (by omega)] at hfound
  unfold ofSigned? at hfound
  split at hfound
  · obtain rfl := Option.some.inj hfound
    refine ⟨rfl, k, by omega, rfl, rfl, fun j hj => ?_⟩
    have hnone := hbefore j hj
    rw [if_pos (by omega)] at hnone
    exact le_of_ofSigned?_eq_none (by omega) hnone
  · cases hfound

theorem fitSigned?_eq_none {negative : Bool} {m s : Nat}
    (h : fitSigned? negative m s = none) :
    79228162514264337593543950336 ≤ roundQuotient .toEven m (10 ^ s) := by
  have hnone := List.findSome?_eq_none_iff.mp h s (List.mem_range.mpr (by omega))
  rw [if_pos (by omega)] at hnone
  exact le_of_ofSigned?_eq_none (by omega) hnone

end Decimal

/-- What is too large for a decimal is too large for a level even with one place less. -/
theorem roundQuotient_too_large (tie : Tie) {n d c : Nat} (hd : 0 < d) (hc : 0 < c) (hc' : c ≤ 10)
    (h : 79228162514264337593543950336 ≤ roundQuotient .toEven n d) :
    9223372036854775808 ≤ roundQuotient tie n (d * c) := by
  have hlow := (roundQuotient_near .toEven n hd).1
  have hhigh := (roundQuotient_near tie n (Nat.mul_pos hd hc)).2
  have hlarge := Nat.mul_le_mul_right d h
  by_contra hsmall
  have hsmall := Nat.mul_le_mul_right (d * c) (Nat.succ_le_of_lt (Nat.not_le.mp hsmall))
  rw [Nat.succ_mul] at hsmall
  have := Nat.mul_le_mul_left d hc'
  omega

/-- Where dropping places leads: to the exact number rounded once, if not to a half that it falls
short of. With no place left, both are beyond all levels. -/
theorem roundQuotient_dropped {n s k q t : Nat} (hk : k ≤ s) (ht : t = s - k)
    (hq : q = roundQuotient .toEven n (10 ^ k))
    (hfirst : ∀ j < k, 79228162514264337593543950336 ≤ roundQuotient .toEven n (10 ^ j)) :
    roundQuotient .awayFromZero q (10 ^ t) = roundQuotient .awayFromZero n (10 ^ s) +
        (if 2 * (q % 10 ^ t) = 10 ^ t ∧ n < q * 10 ^ k then 1 else 0) ∨
      (9223372036854775808 ≤ roundQuotient .awayFromZero n (10 ^ s) ∧
        9223372036854775808 ≤ roundQuotient .awayFromZero q (10 ^ t) ∧
          2 * (q % 10 ^ t) ≠ 10 ^ t) := by
  have hpos : ∀ j, 0 < 10 ^ j := fun j => Nat.pow_pos (by decide)
  subst ht
  rcases Nat.eq_zero_or_pos k with rfl | hpositive
  · rw [Nat.pow_zero, roundQuotient_one] at hq
    subst hq
    left
    rw [if_neg fun h => by omega, Nat.sub_zero, Nat.add_zero]
  · rcases Nat.lt_or_eq_of_le hk with hlt | rfl
    · have htens : 10 ^ (s - k) = 2 * (5 * 10 ^ (s - k - 1)) := by
        rw [← Nat.mul_assoc, Nat.mul_comm, ← Nat.pow_succ]
        congr 1
        omega
      have hsplit : 10 ^ s = 10 ^ k * 10 ^ (s - k) := by
        rw [← Nat.pow_add, Nat.add_sub_cancel' hk]
      left
      rw [hq, hsplit, htens,
        roundQuotient_twice n (hpos k) (Nat.mul_pos (by decide) (hpos (s - k - 1)))]
      simp only [Nat.mul_right_inj (show 2 ≠ 0 by decide)]
    · have htens : 10 ^ k = 10 ^ (k - 1) * 10 := by
        rw [← Nat.pow_succ]
        congr 1
        omega
      have hlarge := fun tie => roundQuotient_too_large tie (hpos (k - 1))
        (show 0 < 10 by decide) (Nat.le_refl _) (hfirst (k - 1) (by omega))
      right
      rw [Nat.sub_self, Nat.pow_zero, roundQuotient_one, Nat.mod_one, hq, htens]
      exact ⟨hlarge _, hlarge _, by decide⟩

/-- A quotient is a half when twice its remainder is the divisor. -/
theorem div_eq_half_iff {q b : Nat} (hb : 0 < b) :
    (∃ n : Nat, (q : Rat) / b = n + 1 / 2) ↔ 2 * (q % b) = b := by
  have hdiv := Nat.div_add_mod' q b
  have hlt := Nat.mod_lt q hb
  have hiff : ∀ n : Nat, (q : Rat) / b = n + 1 / 2 ↔ 2 * q = 2 * (n * b) + b := fun n => by
    rw [div_eq_iff (by exact_mod_cast hb.ne')]
    constructor
    · intro h
      have : (2 * q : Rat) = 2 * (n * b) + b := by linarith
      exact_mod_cast this
    · intro h
      have : (2 * q : Rat) = 2 * (n * b) + b := by exact_mod_cast h
      linarith
  simp only [hiff]
  constructor
  · rintro ⟨n, hn⟩
    obtain rfl : q / b = n := eq_of_mul_near (d := b) (by omega) (by omega)
    omega
  · exact fun h => ⟨q / b, by omega⟩

namespace Decimal

theorem round_eq_nearestWhole (d : Decimal) : d.round = nearestWhole d.toRat := by
  have hpos : 0 < 10 ^ d.scale := Nat.pow_pos (by decide)
  rw [round_eq, toRat_eq]
  split
  · rw [nearestWhole_neg, nearestWhole_div _ hpos]
  · rw [nearestWhole_div _ hpos]

theorem toRat_dropZeroSign (d : Decimal) : d.dropZeroSign.toRat = d.toRat := by
  unfold dropZeroSign
  split
  · rename_i hz
    rw [toRat_of_isZero hz]
    exact toRat_of_isZero hz
  · rfl

/-- The product with a number that has no decimal places. -/
theorem mul?_toRat {a : Decimal} (ha : a.scale = 0) {d : Decimal} (hz : a.isZero = false)
    (hz' : d.isZero = false) : (a.mul? d).map toRat =
      (fitSigned? (a.negative != d.negative) (a.magnitude * d.magnitude) d.scale).map toRat := by
  have hplaces : decide (47 < d.scale) = false := by
    have := d.scale_le
    exact decide_eq_false (by omega)
  unfold mul?
  rw [ha, Nat.zero_add, hplaces, hz, hz', Bool.and_false, Bool.or_false, Bool.or_false,
    if_neg Bool.false_ne_true]
  split
  · rw [Option.map_map, show toRat ∘ dropZeroSign = toRat from funext toRat_dropZeroSign]
  · rfl

end Decimal

namespace Whole

theorem clamp_beyond {negative : Bool} {n : Nat} (h : 9223372036854775808 ≤ n) :
    clamp (if negative then -(n : Int) else n) = if negative then least else greatest := by
  apply ext
  rw [val_clamp]
  cases negative
  · change max _ (min (n : Int) _) = 9223372036854775807
    omega
  · change max _ (min (-(n : Int)) _) = -9223372036854775808
    omega

theorem ofInt?_eq_none {n : Int} (h : ofInt? n = none) :
    n < -9223372036854775808 ∨ 9223372036854775807 < n := by
  unfold ofInt? at h
  split at h
  · cases h
  · omega

/-- Outside the range the side decides. -/
theorem ofInt?_getD (negative : Bool) (n : Nat) :
    (ofInt? (if negative then -(n : Int) else n)).getD (if negative then least else greatest) =
      clamp (if negative then -(n : Int) else n) := by
  cases h : ofInt? (if negative then -(n : Int) else n) with
  | some w => rw [← ofInt?_eq_some_iff.mp h, clamp_val, Option.getD_some]
  | none =>
      have hout := ofInt?_eq_none h
      rw [clamp_beyond (by split at hout <;> omega), Option.getD_none]

/-- Written as a decimal, the product is a half that the exact product falls short of. -/
def FallsShort (level : Whole) (d : Decimal) : Prop :=
  ∃ p, (Decimal.ofWhole level 0 Decimal.noPlaces).mul? d = some p ∧
    ∃ n : Nat, |p.toRat| = n + 1 / 2 ∧ |level.val * d.toRat| < n + 1 / 2

theorem fallsShort_iff {level : Whole} {d p p' : Decimal}
    (h : (Decimal.ofWhole level 0 Decimal.noPlaces).mul? d = some p') (hp : p'.toRat = p.toRat) :
    level.FallsShort d ↔ 2 * (p.magnitude % 10 ^ p.scale) = 10 ^ p.scale ∧
      |level.val * d.toRat| < |p.toRat| := by
  unfold FallsShort
  rw [← div_eq_half_iff (Nat.pow_pos (by decide)), ← Decimal.abs_toRat, ← hp]
  constructor
  · rintro ⟨p'', hp'', n, hhalf, hshort⟩
    obtain rfl := Option.some.inj (h.symm.trans hp'')
    exact ⟨⟨n, hhalf⟩, hhalf ▸ hshort⟩
  · rintro ⟨⟨n, hhalf⟩, hshort⟩
    exact ⟨p', h, n, hhalf, hhalf ▸ hshort⟩

/-- Whether a product is negative, by the signs of its factors. -/
def productSign (level : Whole) (d : Decimal) : Bool := decide (level.val < 0) != d.negative

theorem mul_toRat (level : Whole) (d : Decimal) : level.val * d.toRat =
    if level.productSign d then
      -(((level.val.natAbs * d.magnitude : Nat) : Rat) / (10 ^ d.scale : Nat))
    else ((level.val.natAbs * d.magnitude : Nat) : Rat) / (10 ^ d.scale : Nat) := by
  have hlevel : (level.val : Rat) =
      if level.val < 0 then -(level.val.natAbs : Rat) else level.val.natAbs := by
    split
    · rw [← Int.cast_natCast, ← Int.cast_neg]
      congr 1
      omega
    · rw [← Int.cast_natCast]
      congr 1
      omega
  unfold productSign
  rw [Decimal.toRat_eq, hlevel, Nat.cast_mul]
  by_cases hneg : level.val < 0 <;> cases d.negative <;> simp [hneg, mul_div_assoc]

theorem abs_mul_toRat (level : Whole) (d : Decimal) : |level.val * d.toRat| =
    ((level.val.natAbs * d.magnitude : Nat) : Rat) / (10 ^ d.scale : Nat) := by
  have hnonneg : (0 : Rat) ≤
      ((level.val.natAbs * d.magnitude : Nat) : Rat) / (10 ^ d.scale : Nat) := by positivity
  rw [mul_toRat]
  split
  · rw [abs_neg, abs_of_nonneg hnonneg]
  · exact abs_of_nonneg hnonneg

theorem nearestWhole_mul_toRat (level : Whole) (d : Decimal) :
    nearestWhole (level.val * d.toRat) =
      if level.productSign d then
        -(roundQuotient .awayFromZero (level.val.natAbs * d.magnitude) (10 ^ d.scale) : Int)
      else roundQuotient .awayFromZero (level.val.natAbs * d.magnitude) (10 ^ d.scale) := by
  have hpos : 0 < 10 ^ d.scale := Nat.pow_pos (by decide)
  rw [mul_toRat]
  split
  · rw [nearestWhole_neg, nearestWhole_div _ hpos]
  · rw [nearestWhole_div _ hpos]

/-- A product that is written down is rounded; one that is not is beyond the end on its side. -/
theorem timesDecimal_fitted {level : Whole} {d : Decimal} (hl : level.val ≠ 0)
    (hd : d.isZero = false) :
    (Decimal.fitSigned? (level.productSign d) (level.val.natAbs * d.magnitude) d.scale = none ∧
      (Decimal.ofWhole level 0 Decimal.noPlaces).mul? d = none ∧
        level.timesDecimal d = if level.productSign d then least else greatest) ∨
      ∃ p p', Decimal.fitSigned? (level.productSign d) (level.val.natAbs * d.magnitude) d.scale =
          some p ∧ (Decimal.ofWhole level 0 Decimal.noPlaces).mul? d = some p' ∧
        p'.toRat = p.toRat ∧ level.timesDecimal d = clamp p.round := by
  have hz : (Decimal.ofWhole level 0 Decimal.noPlaces).isZero = false := by
    simpa [Decimal.isZero, Decimal.ofWhole] using hl
  have hside : (if decide (level.val < 0) == d.isNegative then greatest else least) =
      if level.productSign d then least else greatest := by
    unfold productSign Decimal.isNegative
    cases decide (level.val < 0) <;> cases d.negative <;> rfl
  have hmul := Decimal.mul?_toRat rfl hz hd
  change _ = Option.map Decimal.toRat (Decimal.fitSigned? (level.productSign d)
    (level.val.natAbs * d.magnitude) d.scale) at hmul
  unfold timesDecimal
  rw [hside]
  cases hfit : Decimal.fitSigned? (level.productSign d) (level.val.natAbs * d.magnitude) d.scale with
  | none =>
      rw [hfit, Option.map_none, Option.map_eq_none_iff] at hmul
      rw [hmul]
      exact Or.inl ⟨rfl, rfl, rfl⟩
  | some p =>
      rw [hfit, Option.map_some, Option.map_eq_some_iff] at hmul
      obtain ⟨p', hp', hnumber⟩ := hmul
      refine Or.inr ⟨p, p', rfl, hp', hnumber, ?_⟩
      have hgetD := ofInt?_getD (level.productSign d)
        (roundQuotient .awayFromZero p.magnitude (10 ^ p.scale))
      rw [← (Decimal.fitSigned?_eq_some d.scale_le hfit).1, ← Decimal.round_eq] at hgetD
      rw [hp', Option.bind_some, Decimal.round_eq_nearestWhole, hnumber,
        ← Decimal.round_eq_nearestWhole, ← (Decimal.fitSigned?_eq_some d.scale_le hfit).1]
      cases hw : ofInt? p.round with
      | some w => rw [← hgetD, hw, Option.getD_some]
      | none => rw [← hgetD, hw, Option.getD_none]

theorem mul?_of_zero {level : Whole} {d : Decimal} (h : level.val = 0 ∨ d.isZero = true) :
    (Decimal.ofWhole level 0 Decimal.noPlaces).mul? d = some Decimal.zero := by
  unfold Decimal.mul?
  rw [if_pos]
  rcases h with h | h
  · simp [Decimal.ofWhole, Decimal.isZero, h]
  · rw [h, Bool.or_true, Bool.true_or]

theorem timesDecimal_zero {level : Whole} {d : Decimal} (h : level.val = 0 ∨ d.isZero = true) :
    level.timesDecimal d = 0 ∧ ¬ level.FallsShort d ∧ level.val * d.toRat = 0 := by
  have hmul := mul?_of_zero h
  refine ⟨?_, fun hshort => ?_, ?_⟩
  · unfold timesDecimal
    rw [hmul]
    rfl
  · have := ((fallsShort_iff hmul rfl).mp hshort).1
    cases this
  · rcases h with h | h
    · rw [h, Int.cast_zero, zero_mul]
    · rw [Decimal.toRat_of_isZero h, mul_zero]

theorem mul_toRat_neg_iff {level : Whole} {d : Decimal} (hl : level.val ≠ 0)
    (hd : d.isZero = false) : level.val * d.toRat < 0 ↔ level.productSign d = true := by
  have hmagnitude : 0 < d.magnitude := Nat.pos_of_ne_zero fun h => by
    simp [Decimal.isZero, h] at hd
  have hlevel : 0 < level.val.natAbs := Int.natAbs_pos.mpr hl
  have hproduct : (0 : Rat) <
      ((level.val.natAbs * d.magnitude : Nat) : Rat) / (10 ^ d.scale : Nat) := by
    have : 0 < 10 ^ d.scale := Nat.pow_pos (by decide)
    positivity
  rw [mul_toRat]
  split
  · rename_i hneg
    exact ⟨fun _ => hneg, fun _ => neg_neg_iff_pos.mpr hproduct⟩
  · rename_i hneg
    exact ⟨fun h => absurd h (not_lt.mpr hproduct.le), fun h => absurd h hneg⟩

/-- The exact product falls short of a half if it does so with the places that were dropped. -/
theorem fallsShort_iff_dropped {level : Whole} {d p p' : Decimal} {k : Nat}
    (h : (Decimal.ofWhole level 0 Decimal.noPlaces).mul? d = some p') (hp : p'.toRat = p.toRat)
    (hk : k ≤ d.scale) (hscale : p.scale = d.scale - k) :
    level.FallsShort d ↔ 2 * (p.magnitude % 10 ^ p.scale) = 10 ^ p.scale ∧
      level.val.natAbs * d.magnitude < p.magnitude * 10 ^ k := by
  have hpos : ∀ j, 0 < 10 ^ j := fun j => Nat.pow_pos (by decide)
  have hsplit : 10 ^ d.scale = 10 ^ k * 10 ^ (d.scale - k) := by
    rw [← Nat.pow_add, Nat.add_sub_cancel' hk]
  rw [fallsShort_iff h hp, abs_mul_toRat, Decimal.abs_toRat, hscale,
    div_lt_div_iff₀ (by exact_mod_cast hpos _) (by exact_mod_cast hpos _), ← Nat.cast_mul,
    ← Nat.cast_mul, Nat.cast_lt, hsplit, ← Nat.mul_assoc, Nat.mul_lt_mul_right (hpos _)]

/-- A level times a decimal is the exact product, rounded once and kept in range, unless it falls
short of a half that it is first rounded to. -/
theorem timesDecimal_spec (level : Whole) (d : Decimal) :
    (¬ level.FallsShort d → level.timesDecimal d = clamp (nearestWhole (level.val * d.toRat))) ∧
      (level.FallsShort d →
        79228162514264337593543950336 ≤ level.val.natAbs * d.magnitude ∧
          level.timesDecimal d = clamp (nearestWhole (level.val * d.toRat) +
            if level.val * d.toRat < 0 then -1 else 1)) := by
  by_cases hzero : level.val = 0 ∨ d.isZero = true
  · obtain ⟨htimes, hnot, hproduct⟩ := timesDecimal_zero hzero
    refine ⟨fun _ => ?_, fun h => absurd h hnot⟩
    rw [htimes, hproduct, show nearestWhole 0 = 0 by simp [nearestWhole]]
    exact (clamp_val 0).symm
  obtain ⟨hl, hd⟩ := not_or.mp hzero
  rw [Bool.not_eq_true] at hd
  rw [nearestWhole_mul_toRat]
  simp only [mul_toRat_neg_iff hl hd]
  -- Either the product is too large to be written down, or places that do not fit are dropped.
  rcases timesDecimal_fitted hl hd with ⟨hfit, hmul, htimes⟩ | ⟨p, p', hfit, hmul, hnumber, htimes⟩
  · have hlarge := roundQuotient_too_large .awayFromZero (Nat.pow_pos (by decide)) Nat.one_pos
      (by decide) (Decimal.fitSigned?_eq_none hfit)
    rw [Nat.mul_one] at hlarge
    rw [htimes, clamp_beyond hlarge]
    refine ⟨fun _ => rfl, ?_⟩
    rintro ⟨p, hp, -⟩
    rw [hmul] at hp
    cases hp
  · obtain ⟨hnegative, k, hk, hscale, hmagnitude, hfirst⟩ :=
      Decimal.fitSigned?_eq_some d.scale_le hfit
    have hshort := fallsShort_iff_dropped hmul hnumber hk hscale
    have hdropped := roundQuotient_dropped hk hscale hmagnitude hfirst
    rw [htimes, Decimal.round_eq, hnegative]
    generalize roundQuotient .awayFromZero (level.val.natAbs * d.magnitude) (10 ^ d.scale) = once
      at hdropped ⊢
    generalize roundQuotient .awayFromZero p.magnitude (10 ^ p.scale) = twice at hdropped ⊢
    constructor
    · intro hnot
      rw [hshort] at hnot
      rcases hdropped with h | ⟨honce, htwice, -⟩
      · rw [if_neg hnot, Nat.add_zero] at h
        rw [h]
      · rw [clamp_beyond honce, clamp_beyond htwice]
    · intro hfalls
      rw [hshort] at hfalls
      refine ⟨?_, ?_⟩
      · have hdrop : 0 < k := Nat.pos_of_ne_zero fun h0 => by
          have hbelow := hfalls.2
          rw [hmagnitude, h0, Nat.pow_zero, roundQuotient_one, Nat.mul_one] at hbelow
          exact Nat.lt_irrefl _ hbelow
        have hwhole := hfirst 0 hdrop
        rwa [Nat.pow_zero, roundQuotient_one] at hwhole
      · rcases hdropped with h | ⟨-, -, hnot⟩
        · rw [if_pos hfalls] at h
          rw [h]
          congr 1
          split <;> omega
        · exact absurd hfalls.1 hnot

end Whole

/-! ## Scores times a decimal -/

section

variable {S : Type} [Score S] [LawfulScore S]

/-- On each level, a score times a decimal is the exact product, rounded to the nearest whole number
with halves away from zero and kept in range, unless the product has more than 96 bits and is a
little below a half that it is rounded to first: then it is one further from zero. -/
theorem Score.timesDecimal_rounded (s : S) (d : Decimal) :
    List.Forall₂ (fun level product : Whole =>
      (¬ level.FallsShort d → product = .clamp (nearestWhole (level.val * d.toRat))) ∧
        (level.FallsShort d →
          79228162514264337593543950336 ≤ level.val.natAbs * d.magnitude ∧
            product = .clamp (nearestWhole (level.val * d.toRat) +
              if level.val * d.toRat < 0 then -1 else 1)))
      (Score.toLevels s) (Score.toLevels (Score.timesDecimal s d)) := by
  unfold Score.timesDecimal Score.mapLevels
  rw [LawfulScore.toLevels_ofLevels _ (by rw [List.length_map, LawfulScore.length_toLevels]),
    List.forall₂_map_right_iff, List.forall₂_same]
  exact fun level _ => level.timesDecimal_spec d

end

/-- Seventeen sixths, with the places that follow cut off: three times this is a little less than
eight and a half, and too long for a decimal. -/
def cutSeventeenSixths : Decimal := ⟨false, 28333333333333333333333333333, 28, by decide, by decide⟩

theorem Score.timesDecimal_rounded_seventeen_sixths :
    nearestWhole (3 * cutSeventeenSixths.toRat) = 8 ∧
      Score.timesDecimal (⟨⟨3, by decide, by decide⟩⟩ : SimpleScore) cutSeventeenSixths =
        ⟨⟨9, by decide, by decide⟩⟩ := by
  have hproduct : 3 * cutSeventeenSixths.toRat = 84999999999999999999999999999 / 10 ^ (28 : Nat) := by
    norm_num [cutSeventeenSixths, Decimal.toRat, Decimal.coefficient]
  have hnearest : nearestWhole (3 * cutSeventeenSixths.toRat) = 8 := by
    rw [hproduct, nearestWhole, if_neg (by norm_num), round_eq, Int.floor_eq_iff]
    norm_num
  refine ⟨hnearest, ?_⟩
  have hshort : (⟨3, by decide, by decide⟩ : Whole).FallsShort cutSeventeenSixths := by
    refine ⟨⟨false, 8500000000000000000000000000, 27, by decide, by decide⟩, by decide +kernel,
      8, ?_, ?_⟩
    · norm_num [Decimal.toRat, Decimal.coefficient]
    · rw [Int.cast_ofNat, hproduct, abs_of_pos (by norm_num)]
      norm_num
  have hrounded := Score.timesDecimal_rounded (⟨⟨3, by decide, by decide⟩⟩ : SimpleScore)
    cutSeventeenSixths
  obtain ⟨-, hastray⟩ := (List.forall₂_cons.mp hrounded).1
  have hscore := (hastray hshort).2
  rw [Int.cast_ofNat, hnearest, if_neg (by rw [hproduct]; norm_num)] at hscore
  exact congrArg SimpleScore.mk hscore

end ConstraintScoring
