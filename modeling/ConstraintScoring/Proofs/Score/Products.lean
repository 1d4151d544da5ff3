import ConstraintScoring.Proofs.Score.Rounding
import ConstraintScoring.Score.HardSoft

/-!
# Levels times a whole number

A decimal that is a whole number has nothing but zeros after its point. A product with it loses zeros
at most, so that it is exact if it is a decimal at all: the level becomes the same as with the whole
number, however many places the decimal has.
-/

namespace ConstraintScoring

@[simp] theorem nearestWhole_intCast (n : Int) : nearestWhole n = n := by
  unfold nearestWhole
  rw [← Int.cast_neg, round_intCast, round_intCast, neg_neg, ite_self]

namespace Decimal

/-- A whole number without its sign is the magnitude before the places. -/
theorem magnitude_of_toRat {d : Decimal} {n : Int} (h : d.toRat = n) :
    d.magnitude = n.natAbs * 10 ^ d.scale := by
  have habs := abs_toRat d
  rw [h, eq_div_iff (ten_pow_ne_zero _), ← Int.cast_abs, Int.abs_eq_natAbs, Int.cast_natCast] at habs
  exact_mod_cast habs.symm

/-- A magnitude that ends in zeros is written down exactly, if at all, as only zeros have to go. -/
theorem fitSigned?_zeros {negative : Bool} {m s k : Nat} (hs : s ≤ 28) (hk : k ≤ s)
    (hm : m < 79228162514264337593543950336 ∨ k = s) {p : Decimal}
    (h : fitSigned? negative (m * 10 ^ k) s = some p) :
    p.toRat = if negative then -(((m * 10 ^ k : Nat) : Rat) / (10 ^ s : Nat))
      else ((m * 10 ^ k : Nat) : Rat) / (10 ^ s : Nat) := by
  obtain ⟨hnegative, j, hj, hscale, hmagnitude, hfirst⟩ := fitSigned?_eq_some hs h
  have hjk : j ≤ k := by
    rcases hm with hm | rfl
    · by_contra hlt
      have hlarge := hfirst k (Nat.not_le.mp hlt)
      rw [roundQuotient_zeros _ _ (Nat.le_refl k), Nat.sub_self, Nat.pow_zero, Nat.mul_one] at hlarge
      omega
    · exact hj
  rw [roundQuotient_zeros _ _ hjk] at hmagnitude
  have hsame : ((p.magnitude : Rat) / (10 ^ p.scale : Nat)) =
      ((m * 10 ^ k : Nat) : Rat) / (10 ^ s : Nat) := by
    rw [div_eq_div_iff (ten_pow_ne_zero _) (ten_pow_ne_zero _), hmagnitude, hscale]
    have hzeros : 10 ^ k = 10 ^ (k - j) * 10 ^ j := by
      rw [← Nat.pow_add, Nat.sub_add_cancel hjk]
    have hplaces : 10 ^ s = 10 ^ (s - j) * 10 ^ j := by
      rw [← Nat.pow_add, Nat.sub_add_cancel hj]
    rw [hzeros, hplaces]
    push_cast
    ring
  rw [toRat_eq, hnegative, hsame]

end Decimal

namespace Whole

/-- A product that ends in zeros is exact if it is a decimal: at most zeros are dropped, or there is
no place left. -/
theorem mul?_zeros {level : Whole} {d p : Decimal} {m k : Nat} (hk : k ≤ d.scale)
    (hm : m < 79228162514264337593543950336 ∨ k = d.scale)
    (hproduct : level.val.natAbs * d.magnitude = m * 10 ^ k)
    (h : (Decimal.ofWhole level 0 Decimal.noPlaces).mul? d = some p) :
    p.toRat = level.val * d.toRat := by
  by_cases hzero : level.val = 0 ∨ d.isZero = true
  · rw [mul?_of_zero hzero] at h
    obtain rfl := Option.some.inj h
    rw [Decimal.toRat_zero, (timesDecimal_zero hzero).2.2]
  · obtain ⟨hl, hd⟩ := not_or.mp hzero
    rcases timesDecimal_fitted hl (Bool.not_eq_true _ ▸ hd) with ⟨-, hnone, -⟩ |
      ⟨q, p', hfit, hp', hnumber, -⟩
    · rw [hnone] at h
      cases h
    · obtain rfl := Option.some.inj (hp'.symm.trans h)
      rw [hproduct] at hfit
      rw [hnumber, Decimal.fitSigned?_zeros d.scale_le hk hm hfit, mul_toRat, hproduct]

/-- An exact product falls short of nothing. -/
theorem not_fallsShort {level : Whole} {d : Decimal}
    (h : ∀ p, (Decimal.ofWhole level 0 Decimal.noPlaces).mul? d = some p →
      p.toRat = level.val * d.toRat) : ¬ level.FallsShort d := by
  rintro ⟨p, hp, n, hhalf, hshort⟩
  rw [h p hp] at hhalf
  exact absurd hshort (not_lt.mpr (le_of_eq hhalf.symm))

/-- Times a decimal that is a whole number is times that number. -/
theorem timesDecimal_of_whole (level n : Whole) {d : Decimal} (h : d.toRat = n.val) :
    level.timesDecimal d = level.timesWhole n := by
  have hproduct : level.val.natAbs * d.magnitude = level.val.natAbs * n.val.natAbs * 10 ^ d.scale := by
    rw [Decimal.magnitude_of_toRat h, Nat.mul_assoc]
  have hexact := not_fallsShort fun p =>
    mul?_zeros (p := p) (Nat.le_refl d.scale) (Or.inr rfl) hproduct
  rw [(level.timesDecimal_spec d).1 hexact, h, ← Int.cast_mul, nearestWhole_intCast]
  rfl

theorem val_timesWhole (level n : Whole) : (level.timesWhole n).val =
    max (-9223372036854775808) (min (level.val * n.val) 9223372036854775807) := val_clamp _

@[simp] theorem timesWhole_one (level : Whole) : level.timesWhole 1 = level := by
  unfold timesWhole
  rw [val_one, Int.mul_one, clamp_val]

end Whole

namespace Score

variable {S : Type} [Score S] [LawfulScore S]

theorem toLevels_mapLevels (f : Whole → Whole) (s : S) :
    toLevels (mapLevels f s) = (toLevels s).map f := by
  apply LawfulScore.toLevels_ofLevels
  rw [List.length_map, LawfulScore.length_toLevels]

/-- What holds of every number and its image holds of the levels of a score and of its image. -/
theorem forall₂_mapLevels {R : Whole → Whole → Prop} {f : Whole → Whole}
    (h : ∀ level, R level (f level)) (s : S) :
    List.Forall₂ R (toLevels s) (toLevels (mapLevels f s)) := by
  rw [toLevels_mapLevels, List.forall₂_map_right_iff, List.forall₂_same]
  exact fun level _ => h level

theorem timesWhole_eq_mapLevels (s : S) (n : Whole) :
    timesWhole s n = mapLevels (·.timesWhole n) s := LawfulScore.timesWhole_eq s n

/-- Times one changes nothing, so that it need not be computed. -/
@[simp] theorem timesWhole_one (s : S) : timesWhole s 1 = s := by
  rw [timesWhole_eq_mapLevels]
  unfold mapLevels
  rw [List.map_congr_left fun level _ => level.timesWhole_one, List.map_id',
    LawfulScore.ofLevels_toLevels]

theorem timesWeight_whole (s : S) (n : Whole) : timesWeight s (.whole n) = timesWhole s n := by
  by_cases hn : n = 1
  · rw [timesWeight, if_pos hn, hn, timesWhole_one]
  · rw [timesWeight, if_neg hn]

theorem timesDecimal_of_whole (s : S) (n : Whole) {d : Decimal} (h : d.toRat = n.val) :
    timesDecimal s d = timesWhole s n := by
  rw [timesWhole_eq_mapLevels]
  exact congrArg ofLevels (List.map_congr_left fun level _ => level.timesDecimal_of_whole n h)

/-- A whole number and the decimals for it are the same weight: with each of them every level becomes
the exact product, kept in range, whether the score multiplies its levels itself or through the list
of them. -/
theorem timesWeight_agrees (s : S) (n : Whole) {d : Decimal} (h : d.toRat = n.val) :
    timesWeight s (.whole n) = timesWhole s n ∧ timesWeight s (.decimal d) = timesWhole s n ∧
      mapLevels (·.timesWhole n) s = timesWhole s n ∧ timesWeight s (.whole 1) = s ∧
      List.Forall₂ (fun level product : Whole => product.val =
        max (-9223372036854775808) (min (level.val * n.val) 9223372036854775807))
        (toLevels s) (toLevels (timesWhole s n)) := by
  refine ⟨timesWeight_whole s n, timesDecimal_of_whole s n h, (timesWhole_eq_mapLevels s n).symm,
    ?_, ?_⟩
  · rw [timesWeight_whole, timesWhole_one]
  · rw [timesWhole_eq_mapLevels]
    exact forall₂_mapLevels (fun level => level.val_timesWhole n) s

end Score

/-- Minus one, written with twenty-seven places. -/
def longMinusOne : Decimal := ⟨true, 1000000000000000000000000000, 27, by decide, by decide⟩

/-- The least level has no negation in range, and the other level stays zero. -/
theorem Score.timesWeight_agrees_least : longMinusOne.toRat = -1 ∧
    Score.timesWeight (⟨.least, 0⟩ : HardSoftScore) (.decimal longMinusOne) = ⟨.greatest, 0⟩ := by
  have hnumber : longMinusOne.toRat = (⟨-1, by decide, by decide⟩ : Whole).val := by
    norm_num [longMinusOne, Decimal.toRat, Decimal.coefficient]
  have hagrees := Score.timesWeight_agrees (⟨.least, 0⟩ : HardSoftScore) _ hnumber
  refine ⟨by rw [hnumber]; norm_num, hagrees.2.1.trans ?_⟩
  decide

end ConstraintScoring
