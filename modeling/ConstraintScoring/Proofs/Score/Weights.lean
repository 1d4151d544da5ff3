import ConstraintScoring.Score.Basic
import Mathlib.Algebra.Order.Field.Rat
import Mathlib.Tactic.FieldSimp
import Mathlib.Tactic.Ring

/-!
# Match weights as numbers

Decimals that are the same number may have a different number of places. Multiplying a level by
them and rounding gives the same whole number nevertheless: a product that does not fit drops just
as many places more as its factor has more of them.
-/

namespace ConstraintScoring

theorem roundQuotient_scale (tie : Tie) (n : Nat) {d c : Nat} (hc : 0 < c) :
    roundQuotient tie (n * c) (d * c) = roundQuotient tie n d := by
  have hq : n * c / (d * c) = n / d := Nat.mul_div_mul_right n d hc
  have hr : n * c % (d * c) = n % d * c := Nat.mul_mod_mul_right c n d
  have hlt : (d * c < 2 * (n % d * c)) ↔ d < 2 * (n % d) := by
    rw [← Nat.mul_assoc]
    exact Nat.mul_lt_mul_right hc
  have heq : (2 * (n % d * c) = d * c) ↔ 2 * (n % d) = d := by
    rw [← Nat.mul_assoc]
    exact Nat.mul_left_inj (Nat.pos_iff_ne_zero.mp hc)
  unfold roundQuotient Tie.roundsUp
  rw [hq, hr]
  simp only [hlt, heq, beq_eq_decide]

/-- Of a number that ends in zeros only zeros are dropped. -/
theorem roundQuotient_zeros (tie : Tie) (m : Nat) {j k : Nat} (h : j ≤ k) :
    roundQuotient tie (m * 10 ^ k) (10 ^ j) = m * 10 ^ (k - j) := by
  have hsplit : m * 10 ^ k = m * 10 ^ (k - j) * 10 ^ j := by
    rw [Nat.mul_assoc, ← Nat.pow_add, Nat.sub_add_cancel h]
  have hscale := roundQuotient_scale tie (m * 10 ^ (k - j)) (d := 1)
    (Nat.pow_pos (n := j) (show 0 < 10 by omega))
  rwa [Nat.one_mul, roundQuotient_one, ← hsplit] at hscale

theorem roundDiv_scale (tie : Tie) (n : Int) {d c : Nat} (hc : 0 < c) :
    roundDiv tie (n * c) (d * c) = roundDiv tie n d := by
  have hpos : (0 : Int) < c := by exact_mod_cast hc
  have hneg : n * (c : Int) < 0 ↔ n < 0 := by
    constructor
    · intro h
      by_contra hn
      exact absurd (Int.mul_nonneg (Int.not_lt.mp hn) (Int.le_of_lt hpos)) (Int.not_le.mpr h)
    · exact fun h => Int.mul_neg_of_neg_of_pos h hpos
  unfold roundDiv
  rw [Int.natAbs_mul, Int.natAbs_natCast, roundQuotient_scale tie _ hc]
  simp only [hneg]

namespace Decimal

variable {d d' : Decimal}

/-- The same number with `k` zeros more at the end of its decimal places. -/
structure Padded (k : Nat) (d d' : Decimal) : Prop where
  negative : d'.negative = d.negative
  magnitude : d'.magnitude = d.magnitude * 10 ^ k
  scale : d'.scale = d.scale + k

theorem ten_pow_ne_zero (n : Nat) : ((10 ^ n : Nat) : Rat) ≠ 0 :=
  Nat.cast_ne_zero.mpr (Nat.pow_pos (by decide)).ne'

/-- Of two decimals for one number other than zero, one is the other with zeros at the end. -/
theorem padded_of_toRat (h : d.toRat = d'.toRat) (hz : d.isZero = false)
    (hs : d.scale ≤ d'.scale) : Padded (d'.scale - d.scale) d d' := by
  have hcross : d.coefficient * (10 ^ (d'.scale - d.scale) : Nat) = d'.coefficient := by
    unfold toRat at h
    rw [div_eq_div_iff (ten_pow_ne_zero _) (ten_pow_ne_zero _)] at h
    have hsplit : (10 ^ d'.scale : Nat) = 10 ^ (d'.scale - d.scale) * 10 ^ d.scale := by
      rw [← Nat.pow_add, Nat.sub_add_cancel hs]
    rw [hsplit, Nat.cast_mul, ← mul_assoc] at h
    have := mul_right_cancel₀ (ten_pow_ne_zero d.scale) h
    exact_mod_cast this
  have hmagnitude : d'.magnitude = d.magnitude * 10 ^ (d'.scale - d.scale) := by
    rw [← natAbs_coefficient d', ← hcross, Int.natAbs_mul, natAbs_coefficient, Int.natAbs_natCast]
  refine ⟨?_, hmagnitude, by omega⟩
  have hpos : 0 < d.magnitude := Nat.pos_of_ne_zero fun h0 => by simp [isZero, h0] at hz
  have hprod : 0 < d.magnitude * 10 ^ (d'.scale - d.scale) :=
    Nat.mul_pos hpos (Nat.pow_pos (by decide))
  unfold coefficient at hcross
  rw [hmagnitude] at hcross
  cases hd : d.negative <;> cases hd' : d'.negative <;>
    simp only [hd, hd', if_true, Bool.false_eq_true, if_false, neg_mul, ← Nat.cast_mul] at hcross ⊢
  all_goals omega

theorem Padded.coefficient {k : Nat} (h : Padded k d d') :
    d'.coefficient = d.coefficient * ((10 ^ k : Nat) : Int) := by
  unfold Decimal.coefficient
  rw [h.negative, h.magnitude]
  split <;> push_cast <;> ring

theorem round_padded {k : Nat} (h : Padded k d d') : d'.round = d.round := by
  unfold round
  rw [h.coefficient, h.scale, Nat.pow_add, roundDiv_scale _ _ (Nat.pow_pos (by omega))]

theorem fitSigned?_succ (negative : Bool) (m s : Nat) (hs : s + 1 ≤ 28) :
    (fitSigned? negative (m * 10) (s + 1)).map round = (fitSigned? negative m s).map round := by
  have hrest : ∀ j, (if s + 1 ≤ 28 + (j + 1) then
      ofSigned? negative (roundQuotient .toEven (m * 10) (10 ^ (j + 1))) (s + 1 - (j + 1)) else none) =
      if s ≤ 28 + j then ofSigned? negative (roundQuotient .toEven m (10 ^ j)) (s - j) else none := by
    intro j
    rw [Nat.pow_succ, roundQuotient_scale _ _ (by omega), Nat.add_sub_add_right]
    simp only [show s + 1 ≤ 28 + (j + 1) ↔ s ≤ 28 + j by omega]
  unfold fitSigned?
  rw [List.range_succ_eq_map, List.findSome?_cons, if_pos (by omega), Nat.pow_zero,
    roundQuotient_one, Nat.sub_zero]
  by_cases hfit : m * 10 < 79228162514264337593543950336
  · have hm : m < 79228162514264337593543950336 := by omega
    rw [List.range_succ_eq_map, List.findSome?_cons, if_pos (by omega), Nat.pow_zero,
      roundQuotient_one, Nat.sub_zero]
    unfold ofSigned?
    rw [dif_pos ⟨hfit, hs⟩, dif_pos ⟨hm, by omega⟩]
    exact congrArg some (round_padded (k := 1) ⟨rfl, by simp, rfl⟩)
  · have hnone : ofSigned? negative (m * 10) (s + 1) = none := by
      unfold ofSigned?
      rw [dif_neg fun h => hfit h.1]
    rw [hnone]
    simp only [List.findSome?_map, Function.comp_def, Nat.succ_eq_add_one, hrest]

theorem fitSigned?_padded (negative : Bool) (m s : Nat) {k : Nat} (hs : s + k ≤ 28) :
    (fitSigned? negative (m * 10 ^ k) (s + k)).map round = (fitSigned? negative m s).map round := by
  induction k with
  | zero => simp
  | succ k ih =>
      rw [Nat.pow_succ, ← Nat.mul_assoc, ← Nat.add_assoc, fitSigned?_succ negative _ _ (by omega)]
      exact ih (by omega)

theorem round_dropZeroSign (d : Decimal) : d.dropZeroSign.round = d.round := by
  unfold dropZeroSign
  split
  · rename_i hz
    have hzero : d.magnitude = 0 := by simpa [isZero] using hz
    unfold round coefficient
    simp [hzero]
  · rfl

/-- What a product with a number that has no decimal places rounds to. -/
theorem mul?_round {a : Decimal} (ha : a.scale = 0) (d : Decimal) :
    (a.mul? d).map round = if a.isZero || d.isZero then some zero.round else
      (fitSigned? (a.negative != d.negative) (a.magnitude * d.magnitude) d.scale).map round := by
  have hplaces : decide (47 < d.scale) = false := by
    have := d.scale_le
    exact decide_eq_false (by omega)
  unfold mul?
  rw [ha, Nat.zero_add, hplaces, Bool.and_false, Bool.or_false]
  by_cases hz : (a.isZero || d.isZero) = true
  · rw [if_pos hz, if_pos hz]
    rfl
  · rw [if_neg hz, if_neg hz]
    split
    · rw [Option.map_map, show round ∘ dropZeroSign = round from funext round_dropZeroSign]
    · rfl

theorem isZero_congr (h : d.toRat = d'.toRat) : d.isZero = d'.isZero := by
  have hz : ∀ e : Decimal, e.isZero = true ↔ e.toRat = 0 := by
    intro e
    unfold toRat
    rw [div_eq_zero_iff, or_iff_left (ten_pow_ne_zero e.scale), Int.cast_eq_zero,
      ← Int.natAbs_eq_zero, natAbs_coefficient]
    simp [isZero]
  rw [Bool.eq_iff_iff, hz, hz, h]

/-- Decimals for one number other than zero are padded forms of each other, one way or the other. -/
theorem exists_padded (h : d.toRat = d'.toRat) (hz : d.isZero = false) :
    ∃ k, Padded k d d' ∨ Padded k d' d := by
  rcases Nat.le_total d.scale d'.scale with hs | hs
  · exact ⟨_, Or.inl (padded_of_toRat h hz hs)⟩
  · exact ⟨_, Or.inr (padded_of_toRat h.symm (isZero_congr h ▸ hz) hs)⟩

theorem negative_congr (h : d.toRat = d'.toRat) (hz : d.isZero = false) :
    d.negative = d'.negative := by
  obtain ⟨k, hk | hk⟩ := exists_padded h hz
  · exact hk.negative.symm
  · exact hk.negative

theorem mul?_congr {a : Decimal} (ha : a.scale = 0) (h : d.toRat = d'.toRat) :
    (a.mul? d).map round = (a.mul? d').map round := by
  rw [mul?_round ha, mul?_round ha, ← isZero_congr h]
  cases hd : d.isZero with
  | true => simp
  | false =>
      have hpad : ∀ {e e' : Decimal} {k : Nat}, Padded k e e' →
          (fitSigned? (a.negative != e'.negative) (a.magnitude * e'.magnitude) e'.scale).map round =
            (fitSigned? (a.negative != e.negative) (a.magnitude * e.magnitude) e.scale).map round := by
        intro e e' k hk
        have := e'.scale_le
        rw [hk.negative, hk.magnitude, hk.scale, ← Nat.mul_assoc]
        exact fitSigned?_padded _ _ _ (hk.scale ▸ this)
      obtain ⟨k, hk | hk⟩ := exists_padded h hd
      · rw [hpad hk]
      · rw [hpad hk]

end Decimal

theorem Whole.timesDecimal_congr (level : Whole) {d d' : Decimal} (h : d.toRat = d'.toRat) :
    level.timesDecimal d = level.timesDecimal d' := by
  have hround := Decimal.mul?_congr (a := .ofWhole level 0 (by decide)) rfl h
  have hbind : ∀ e : Decimal, ((Decimal.ofWhole level 0 (by decide)).mul? e).bind
      (fun p => Whole.ofInt? p.round) =
        (((Decimal.ofWhole level 0 (by decide)).mul? e).map Decimal.round).bind Whole.ofInt? :=
    fun e => by rw [Option.bind_map, Function.comp_def]
  unfold timesDecimal
  rw [hbind, hbind, hround]
  split
  · rfl
  · rename_i hnone
    cases hz : d'.isZero with
    | true =>
        rw [Decimal.mul?_round rfl, hz, Bool.or_true, if_pos rfl] at hnone
        cases hnone
    | false =>
        unfold Decimal.isNegative
        rw [Decimal.negative_congr h.symm hz]

namespace MatchWeight

/-- Equal weights; decimals count as numbers. -/
def Same : MatchWeight → MatchWeight → Prop
  | whole m, whole n => m = n
  | decimal d, decimal e => d.toRat = e.toRat
  | _, _ => False

end MatchWeight

theorem Score.timesWeight_congr {S : Type} [Score S] (s : S) {w w' : MatchWeight}
    (h : w.Same w') : Score.timesWeight s w = Score.timesWeight s w' := by
  cases w <;> cases w' <;> simp only [MatchWeight.Same] at h
  · rw [h]
  · unfold timesWeight timesDecimal mapLevels
    exact congrArg ofLevels (List.map_congr_left fun level _ => level.timesDecimal_congr h)

end ConstraintScoring
