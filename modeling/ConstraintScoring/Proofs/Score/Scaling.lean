import ConstraintScoring.Proofs.Score.Products
import ConstraintScoring.Proofs.Score.RoundTrip

/-!
# Scores of two decimals

A score with five decimal places is made from two decimals. Each becomes a hundred thousand times as
much, rounded once to a whole number: the product of a decimal with a hundred thousand only loses
zeros, and one that is too large for a decimal is too large for a level as well.
-/

namespace ConstraintScoring

theorem nearestWhole_nonneg {x : Rat} (hx : 0 ≤ x) : 0 ≤ nearestWhole x := by
  unfold nearestWhole
  rw [if_neg (not_lt.mpr hx), round_eq]
  exact Int.floor_nonneg.mpr (by linarith)

theorem nearestWhole_mono_of_nonneg {x y : Rat} (hx : 0 ≤ x) (h : x ≤ y) :
    nearestWhole x ≤ nearestWhole y := by
  unfold nearestWhole
  rw [if_neg (not_lt.mpr hx), if_neg (not_lt.mpr (hx.trans h)), round_eq, round_eq]
  exact Int.floor_le_floor (by linarith)

/-- A greater number is rounded to no smaller one. -/
theorem nearestWhole_mono {x y : Rat} (h : x ≤ y) : nearestWhole x ≤ nearestWhole y := by
  rcases le_or_gt 0 x with hx | hx
  · exact nearestWhole_mono_of_nonneg hx h
  -- Below zero rounding mirrors what it does above.
  have hopposite := nearestWhole_neg x
  rcases le_or_gt y 0 with hy | hy
  · have hmirrored := nearestWhole_mono_of_nonneg (neg_nonneg.mpr hy) (neg_le_neg h)
    rw [nearestWhole_neg, nearestWhole_neg] at hmirrored
    omega
  · have hbelow := nearestWhole_nonneg (neg_nonneg.mpr hx.le)
    have habove := nearestWhole_nonneg hy.le
    omega

/-- Halves that go to the even neighbour are not rounded up more often than all halves. -/
theorem roundQuotient_toEven_le (n d : Nat) :
    roundQuotient .toEven n d ≤ roundQuotient .awayFromZero n d := by
  rcases roundQuotient_cases .toEven n d with ⟨heven, hup⟩ | ⟨heven, -, -⟩
  · rcases roundQuotient_cases .awayFromZero n d with ⟨haway, -⟩ | ⟨-, hdown, htie⟩
    · omega
    · have hhalf := htie rfl
      omega
  · rcases roundQuotient_cases .awayFromZero n d with ⟨haway, -⟩ | ⟨haway, -, -⟩ <;> omega

namespace Whole

/-- A whole number that can be a level. -/
def InRange (n : Int) : Prop := least.val ≤ n ∧ n ≤ greatest.val

instance (n : Int) : Decidable (InRange n) := inferInstanceAs (Decidable (_ ∧ _))

theorem isSome_ofInt?_iff {n : Int} : (ofInt? n).isSome ↔ InRange n := by
  unfold ofInt? InRange least greatest
  split
  · rename_i h
    exact iff_of_true rfl h
  · rename_i h
    exact iff_of_false Bool.false_ne_true h

theorem inRange_val (w : Whole) : InRange w.val := ⟨w.min_le, w.le_max⟩

theorem ofInt?_of_inRange {n : Int} (h : InRange n) : ∃ w : Whole, ofInt? n = some w ∧ w.val = n :=
  ⟨⟨n, h.1, h.2⟩, ofInt?_eq_some_iff.mpr rfl, rfl⟩

theorem ofInt?_of_not_inRange {n : Int} (h : ¬ InRange n) : ofInt? n = none := by
  rw [← Option.not_isSome_iff_eq_none, isSome_ofInt?_iff]
  exact h

end Whole

/-- A score with no greater level is no greater. -/
theorem Score.order_isLE {S : Type} [Score S] {s t : S}
    (h : List.Forall₂ (fun v w : Whole => v.val ≤ w.val) (toLevels s) (toLevels t)) :
    (order s t).isLE := by
  unfold order
  generalize toLevels s = vs, toLevels t = ws at h
  induction h with
  | nil => rfl
  | cons hle hrest ih =>
      rw [List.compareLex_cons_cons, Ordering.isLE_then_iff_and]
      exact ⟨Int.isLE_compare.mpr hle, Or.inr ih⟩

namespace HardSoftDecimalScore

/-- Of a product with a hundred thousand only zeros have to be dropped, five at most. -/
theorem scale_mul?_exact {d p : Decimal}
    (h : (Decimal.ofWhole scale 0 Decimal.noPlaces).mul? d = some p) :
    p.toRat = scale.val * d.toRat := by
  have hproduct : scale.val.natAbs * d.magnitude =
      d.magnitude * 10 ^ (5 - min 5 d.scale) * 10 ^ min 5 d.scale := by
    rw [Nat.mul_assoc, ← Nat.pow_add, Nat.sub_add_cancel (Nat.min_le_left ..), Nat.mul_comm]
    rfl
  refine Whole.mul?_zeros (Nat.min_le_right ..) ?_ hproduct h
  rcases Nat.le_total 5 d.scale with hplaces | hplaces
  · have hlt := d.magnitude_lt
    left
    rwa [Nat.min_eq_left hplaces, Nat.sub_self, Nat.pow_zero, Nat.mul_one]
  · exact Or.inr (Nat.min_eq_right hplaces)

/-- What is too large for a decimal is out of range. -/
theorem scale_mul?_none {d : Decimal}
    (h : (Decimal.ofWhole scale 0 Decimal.noPlaces).mul? d = none) :
    ¬ Whole.InRange (nearestWhole (scale.val * d.toRat)) := by
  have hd : d.isZero = false := by
    by_contra hzero
    rw [Whole.mul?_of_zero (Or.inr (Bool.not_eq_false _ ▸ hzero))] at h
    cases h
  have hscale : scale.val ≠ 0 := by decide
  rcases Whole.timesDecimal_fitted hscale hd with ⟨hfit, -, -⟩ | ⟨p, p', -, hp', -, -⟩
  · have hlarge := Decimal.fitSigned?_eq_none hfit
    have hrounded := roundQuotient_toEven_le (scale.val.natAbs * d.magnitude) (10 ^ d.scale)
    rw [Whole.nearestWhole_mul_toRat]
    unfold Whole.InRange Whole.least Whole.greatest
    split <;> dsimp only <;> omega
  · rw [hp'] at h
    cases h

/-- A level is the decimal times a hundred thousand, rounded once. -/
theorem toScaled?_eq (d : Decimal) :
    toScaled? d = Whole.ofInt? (nearestWhole (d.toRat * 100000)) := by
  have hscale : d.toRat * 100000 = scale.val * d.toRat := by
    rw [mul_comm]
    rfl
  unfold toScaled?
  rw [Decimal.mul?_comm, hscale]
  cases h : (Decimal.ofWhole scale 0 Decimal.noPlaces).mul? d with
  | none => exact (Whole.ofInt?_of_not_inRange (scale_mul?_none h)).symm
  | some p => rw [Option.bind_some, Decimal.round_eq_nearestWhole, scale_mul?_exact h]

theorem ofDecimal?_eq_some_iff {hard soft : Decimal} {s : HardSoftDecimalScore} :
    ofDecimal? hard soft = some s ↔
      s.hardScaled.val = nearestWhole (hard.toRat * 100000) ∧
        s.softScaled.val = nearestWhole (soft.toRat * 100000) := by
  unfold ofDecimal?
  rw [toScaled?_eq, toScaled?_eq, Option.bind_eq_some_iff]
  simp only [Option.map_eq_some_iff, Whole.ofInt?_eq_some_iff]
  constructor
  · rintro ⟨h, hh, w, hw, rfl⟩
    exact ⟨hh, hw⟩
  · rintro ⟨hh, hw⟩
    exact ⟨s.hardScaled, hh, s.softScaled, hw, rfl⟩

theorem isSome_ofDecimal?_iff {hard soft : Decimal} : (ofDecimal? hard soft).isSome ↔
    Whole.InRange (nearestWhole (hard.toRat * 100000)) ∧
      Whole.InRange (nearestWhole (soft.toRat * 100000)) := by
  rw [Option.isSome_iff_exists]
  simp only [ofDecimal?_eq_some_iff]
  constructor
  · rintro ⟨s, hhard, hsoft⟩
    rw [← hhard, ← hsoft]
    exact ⟨s.hardScaled.inRange_val, s.softScaled.inRange_val⟩
  · rintro ⟨hhard, hsoft⟩
    exact ⟨⟨⟨_, hhard.1, hhard.2⟩, ⟨_, hsoft.1, hsoft.2⟩⟩, rfl, rfl⟩

theorem ofDecimal?_levels (s : HardSoftDecimalScore) : ofDecimal? s.hard s.soft = some s := by
  unfold ofDecimal? hard soft
  rw [toScaled?_levelDecimal, toScaled?_levelDecimal]
  rfl

/-- Two decimals make a score just when, a hundred thousand times as large and rounded to the nearest
whole number with halves away from zero, both are in range, and these are its levels then. Every score
is made from its own levels, and greater decimals make no smaller score. -/
theorem ofDecimal?_exact (hard soft : Decimal) :
    ((ofDecimal? hard soft).isSome ↔ Whole.InRange (nearestWhole (hard.toRat * 100000)) ∧
      Whole.InRange (nearestWhole (soft.toRat * 100000))) ∧
    (∀ s, ofDecimal? hard soft = some s ↔
      s.hardScaled.val = nearestWhole (hard.toRat * 100000) ∧
        s.softScaled.val = nearestWhole (soft.toRat * 100000)) ∧
    (∀ s : HardSoftDecimalScore, ofDecimal? s.hard s.soft = some s) ∧
    (∀ hard' soft' s s', hard.toRat ≤ hard'.toRat → soft.toRat ≤ soft'.toRat →
      ofDecimal? hard soft = some s → ofDecimal? hard' soft' = some s' →
        s.hardScaled.val ≤ s'.hardScaled.val ∧ s.softScaled.val ≤ s'.softScaled.val ∧
          (Score.order s s').isLE) := by
  refine ⟨isSome_ofDecimal?_iff, fun s => ofDecimal?_eq_some_iff, ofDecimal?_levels, ?_⟩
  intro hard' soft' s s' hhard hsoft hs hs'
  obtain ⟨hs₁, hs₂⟩ := ofDecimal?_eq_some_iff.mp hs
  obtain ⟨hs'₁, hs'₂⟩ := ofDecimal?_eq_some_iff.mp hs'
  have hhard_le : s.hardScaled.val ≤ s'.hardScaled.val := by
    rw [hs₁, hs'₁]
    exact nearestWhole_mono (by linarith)
  have hsoft_le : s.softScaled.val ≤ s'.softScaled.val := by
    rw [hs₂, hs'₂]
    exact nearestWhole_mono (by linarith)
  exact ⟨hhard_le, hsoft_le, Score.order_isLE (.cons hhard_le (.cons hsoft_le .nil))⟩

/-- The greatest level and half a hundred-thousandth. -/
def edge : Decimal := ⟨false, 922337203685477580750, 7, by decide, by decide⟩

/-- A little less, with as many places as there is room for. -/
def belowEdge : Decimal := ⟨false, 9223372036854775807499999999, 14, by decide, by decide⟩

/-- The half is rounded out of the range, what is below it to the end of the range. -/
theorem ofDecimal?_exact_edge :
    ofDecimal? belowEdge .zero = some ⟨.greatest, 0⟩ ∧ ofDecimal? edge .zero = none := by
  have hzero : nearestWhole (Decimal.zero.toRat * 100000) = 0 := by
    rw [Decimal.toRat_zero, zero_mul]
    exact nearestWhole_intCast 0
  have hbelow : nearestWhole (belowEdge.toRat * 100000) = 9223372036854775807 := by
    have hnumber : belowEdge.toRat * 100000 = 9223372036854775807499999999 / 1000000000 := by
      norm_num [belowEdge, Decimal.toRat, Decimal.coefficient]
    rw [hnumber, nearestWhole, if_neg (by norm_num), round_eq, Int.floor_eq_iff]
    norm_num
  have hedge : nearestWhole (edge.toRat * 100000) = 9223372036854775808 := by
    have hnumber : edge.toRat * 100000 = 922337203685477580750 / 100 := by
      norm_num [edge, Decimal.toRat, Decimal.coefficient]
    rw [hnumber, nearestWhole, if_neg (by norm_num), round_eq, Int.floor_eq_iff]
    norm_num
  refine ⟨((ofDecimal?_exact belowEdge .zero).2.1 _).mpr ⟨hbelow.symm, hzero.symm⟩, ?_⟩
  rw [← Option.not_isSome_iff_eq_none, (ofDecimal?_exact edge .zero).1, hedge]
  exact fun h => absurd h.1.2 (by decide)

end HardSoftDecimalScore

end ConstraintScoring
