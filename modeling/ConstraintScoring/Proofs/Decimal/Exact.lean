import ConstraintScoring.Proofs.Score.Weights

/-!
# Exact sums of decimals

A sum of decimals that is a decimal itself is found exactly, as only zeros are dropped from the end
of its places. A sum that is no decimal is rounded or has no result.
-/

namespace ConstraintScoring.Decimal

variable {a b d : Decimal}

/-- There is a decimal for the number. -/
def Represents (q : Rat) : Prop := ∃ d : Decimal, d.toRat = q

theorem toRat_neg (d : Decimal) : d.neg.toRat = -d.toRat := by
  unfold toRat
  rw [coefficient_neg, Int.cast_neg, neg_div]
  rfl

theorem toRat_of_isZero (h : d.isZero = true) : d.toRat = 0 := by
  have hcoefficient : d.coefficient = 0 := by
    rw [← Int.natAbs_eq_zero, natAbs_coefficient]
    simpa [isZero] using h
  unfold toRat
  rw [hcoefficient, Int.cast_zero, zero_div]

@[simp] theorem toRat_zero : zero.toRat = 0 := toRat_of_isZero rfl

/-- The first of a range that gives a result is not later than one that does. -/
theorem findSome?_range {β : Type} {f : Nat → Option β} {P : β → Prop} {n j : Nat} (hj : j < n)
    (hfound : (f j).isSome) (hP : ∀ i ≤ j, ∀ b, f i = some b → P b) :
    ∃ b, (List.range n).findSome? f = some b ∧ P b := by
  have hmem : j ∈ List.range n := List.mem_range.mpr hj
  obtain ⟨b, hb⟩ := Option.isSome_iff_exists.mp (List.findSome?_isSome_iff.mpr ⟨j, hmem, hfound⟩)
  obtain ⟨before, i, after, hsplit, hi, hnone⟩ := List.findSome?_eq_some_iff.mp hb
  refine ⟨b, hb, hP i (Nat.not_lt.mp fun hlt => ?_) b hi⟩
  have hsorted : (before ++ i :: after).Pairwise (· < ·) := hsplit ▸ List.pairwise_lt_range
  have hafter := (List.pairwise_cons.mp (List.pairwise_append.mp hsorted).2.1).1
  rw [hsplit] at hmem
  rcases List.mem_append.mp hmem with hmem | hmem
  · rw [hnone j hmem] at hfound
    cases hfound
  · rcases List.mem_cons.mp hmem with rfl | hmem
    · omega
    · have := hafter j hmem
      omega

/-- A magnitude that is a decimal's with some zeros more at the end is written down exactly. -/
theorem fitSigned?_exact (negative : Bool) {m s k : Nat} (hk : k ≤ s)
    (hm : m < 79228162514264337593543950336) (hs : s ≤ 28 + k) :
    ∃ j ≤ k, ∃ d, fitSigned? negative (m * 10 ^ k) s = some d ∧ d.negative = negative ∧
      d.magnitude = m * 10 ^ (k - j) ∧ d.scale = s - j := by
  have hround : ∀ j ≤ k, roundQuotient .toEven (m * 10 ^ k) (10 ^ j) = m * 10 ^ (k - j) :=
    fun j hj => roundQuotient_zeros .toEven m hj
  have hlast : (ofSigned? negative (m * 10 ^ (k - k)) (s - k)).isSome := by
    unfold ofSigned?
    rw [dif_pos (by rw [Nat.sub_self, Nat.pow_zero, Nat.mul_one]; exact ⟨hm, by omega⟩)]
    rfl
  have hfound := findSome?_range (n := s + 1) (j := k)
    (f := fun dropped => if s ≤ 28 + dropped then
      ofSigned? negative (roundQuotient .toEven (m * 10 ^ k) (10 ^ dropped)) (s - dropped) else none)
    (P := fun d => ∃ j ≤ k, d.negative = negative ∧ d.magnitude = m * 10 ^ (k - j) ∧
      d.scale = s - j) (by omega)
    (by rw [if_pos hs, hround k (Nat.le_refl k)]; exact hlast) (fun j hj d hd => ?_)
  · obtain ⟨d, hd, j, hj, hparts⟩ := hfound
    exact ⟨j, hj, d, hd, hparts⟩
  · split at hd
    · unfold ofSigned? at hd
      split at hd
      · obtain rfl := Option.some.inj hd
        exact ⟨j, hj, rfl, hround j hj, rfl⟩
      · cases hd
    · cases hd

/-- A number with a decimal is written down exactly. -/
theorem fit?_exact {c : Int} {s : Nat} (h : Represents ((c : Rat) / (10 ^ s : Nat))) :
    ∃ d, fit? c s = some d ∧ d.toRat = (c : Rat) / (10 ^ s : Nat) := by
  obtain ⟨e, he⟩ := h
  have hcross : e.coefficient * (10 ^ s : Nat) = c * (10 ^ e.scale : Nat) := by
    unfold toRat at he
    rw [div_eq_div_iff (ten_pow_ne_zero _) (ten_pow_ne_zero _)] at he
    exact_mod_cast he
  have habs : e.magnitude * 10 ^ s = c.natAbs * 10 ^ e.scale := by
    have := congrArg Int.natAbs hcross
    rwa [Int.natAbs_mul, Int.natAbs_mul, natAbs_coefficient, Int.natAbs_natCast,
      Int.natAbs_natCast] at this
  obtain ⟨m, k, hk, hm, hs, hc⟩ : ∃ m k, k ≤ s ∧ m < 79228162514264337593543950336 ∧
      s ≤ 28 + k ∧ c.natAbs = m * 10 ^ k := by
    have hlt := e.magnitude_lt
    have hplaces := e.scale_le
    have hpos : ∀ n : Nat, 0 < 10 ^ n := fun n => Nat.pow_pos (by omega)
    rcases Nat.le_total s e.scale with hle | hle
    · have hsplit : c.natAbs * 10 ^ (e.scale - s) = e.magnitude := by
        refine Nat.eq_of_mul_eq_mul_right (hpos s) ?_
        rw [habs, Nat.mul_assoc, ← Nat.pow_add, Nat.sub_add_cancel hle]
      have := Nat.le_mul_of_pos_right c.natAbs (hpos (e.scale - s))
      exact ⟨c.natAbs, 0, by omega, by omega, by omega, by simp⟩
    · refine ⟨e.magnitude, s - e.scale, by omega, hlt, by omega, ?_⟩
      refine Nat.eq_of_mul_eq_mul_right (hpos e.scale) ?_
      rw [← habs, Nat.mul_assoc, ← Nat.pow_add, Nat.sub_add_cancel hle]
  obtain ⟨j, hj, d, hd, hnegative, hmagnitude, hscale⟩ := fitSigned?_exact (c < 0) hk hm hs
  refine ⟨d, by unfold fit?; rw [hc]; exact hd, ?_⟩
  have hcoefficient : d.coefficient * (10 ^ j : Nat) = c := by
    have hsplit : d.magnitude * 10 ^ j = c.natAbs := by
      rw [hmagnitude, hc, Nat.mul_assoc, ← Nat.pow_add, Nat.sub_add_cancel hj]
    unfold coefficient
    rw [hnegative]
    by_cases hneg : c < 0
    · rw [if_pos (by simpa using hneg), Int.neg_mul, ← Nat.cast_mul, hsplit]
      omega
    · rw [if_neg (by simpa using hneg), ← Nat.cast_mul, hsplit]
      omega
  unfold toRat
  rw [div_eq_div_iff (ten_pow_ne_zero _) (ten_pow_ne_zero _), ← hcoefficient, hscale]
  have hsplit : (10 ^ s : Nat) = 10 ^ j * 10 ^ (s - j) := by
    rw [← Nat.pow_add, Nat.add_sub_cancel' (by omega)]
  rw [hsplit]
  push_cast
  ring

/-- With its places aligned, a sum is one of whole numbers. -/
theorem aligned_toRat (a b : Decimal) :
    (((a.coefficient * 10 ^ (max a.scale b.scale - a.scale) +
      b.coefficient * 10 ^ (max a.scale b.scale - b.scale) : Int) : Rat) /
        (10 ^ max a.scale b.scale : Nat)) = a.toRat + b.toRat := by
  have hterm : ∀ (d : Decimal) {s : Nat}, d.scale ≤ s →
      ((d.coefficient * 10 ^ (s - d.scale) : Int) : Rat) / (10 ^ s : Nat) = d.toRat := by
    intro d s hs
    unfold toRat
    rw [div_eq_div_iff (ten_pow_ne_zero _) (ten_pow_ne_zero _)]
    have hsplit : (10 ^ s : Nat) = 10 ^ (s - d.scale) * 10 ^ d.scale := by
      rw [← Nat.pow_add, Nat.sub_add_cancel hs]
    rw [hsplit]
    push_cast
    ring
  rw [Int.cast_add, add_div, hterm a (Nat.le_max_left ..), hterm b (Nat.le_max_right ..)]

theorem alignedSum?_exact (h : Represents (a.toRat + b.toRat)) :
    ∃ d, a.alignedSum? b = some d ∧ d.toRat = a.toRat + b.toRat := by
  rw [← aligned_toRat] at h ⊢
  exact fit?_exact h

/-- A sum with a decimal is that decimal. -/
theorem add?_exact (h : Represents (a.toRat + b.toRat)) :
    ∃ d, a.add? b = some d ∧ d.toRat = a.toRat + b.toRat := by
  unfold add?
  by_cases ha : a.isZero = true
  · rw [if_pos ha]
    exact ⟨b, rfl, by rw [toRat_of_isZero ha, zero_add]⟩
  · by_cases hb : b.isZero = true
    · rw [if_neg ha, if_pos hb]
      exact ⟨a, rfl, by rw [toRat_of_isZero hb, add_zero]⟩
    · rw [if_neg ha, if_neg hb]
      exact alignedSum?_exact h

/-- A difference with a decimal is that decimal. -/
theorem sub?_exact (h : Represents (a.toRat - b.toRat)) :
    ∃ d, a.sub? b = some d ∧ d.toRat = a.toRat - b.toRat := by
  unfold sub?
  by_cases ha : a.isZero = true
  · rw [if_pos ha, toRat_of_isZero ha, zero_sub]
    by_cases hb : b.isZero = true
    · rw [if_pos hb]
      exact ⟨b, rfl, by rw [toRat_of_isZero hb, neg_zero]⟩
    · rw [if_neg hb]
      exact ⟨b.neg, rfl, toRat_neg b⟩
  · by_cases hb : b.isZero = true
    · rw [if_neg ha, if_pos hb]
      exact ⟨a, rfl, by rw [toRat_of_isZero hb, sub_zero]⟩
    · rw [if_neg ha, if_neg hb]
      rw [sub_eq_add_neg, ← toRat_neg] at h ⊢
      exact alignedSum?_exact h

/-! ## Decimals without places -/

theorem toRat_of_whole (h : d.scale = 0) : d.toRat = d.coefficient := by
  unfold toRat
  rw [h, Nat.pow_zero, Nat.cast_one, div_one]

theorem fit?_whole {c : Int} (h : fit? c 0 = some d) : d.scale = 0 ∧ d.coefficient = c := by
  have hfit : fit? c 0 = ofSigned? (c < 0) c.natAbs 0 := by
    unfold fit? fitSigned?
    rw [show List.range (0 + 1) = [0] from rfl, List.findSome?_singleton, if_pos (Nat.zero_le _),
      Nat.pow_zero, roundQuotient_one]
  rw [hfit] at h
  unfold ofSigned? at h
  split at h
  · obtain rfl := Option.some.inj h
    refine ⟨rfl, ?_⟩
    simp only [coefficient, decide_eq_true_eq]
    split <;> omega
  · cases h

theorem alignedSum?_whole (ha : a.scale = 0) (hb : b.scale = 0) (h : a.alignedSum? b = some d) :
    d.scale = 0 ∧ d.toRat = a.toRat + b.toRat := by
  have haligned := aligned_toRat a b
  unfold alignedSum? at h
  simp only [ha, hb, Nat.max_self] at h haligned
  obtain ⟨hscale, hcoefficient⟩ := fit?_whole h
  refine ⟨hscale, ?_⟩
  rw [← haligned, toRat_of_whole hscale, hcoefficient, Nat.pow_zero, Nat.cast_one, div_one]

/-- A sum of decimals without places has none, and nothing is rounded. -/
theorem add?_whole (ha : a.scale = 0) (hb : b.scale = 0) (h : a.add? b = some d) :
    d.scale = 0 ∧ d.toRat = a.toRat + b.toRat := by
  unfold add? at h
  split at h
  · rename_i hzero
    obtain rfl := Option.some.inj h
    exact ⟨hb, by rw [toRat_of_isZero hzero, zero_add]⟩
  · split at h
    · rename_i hzero
      obtain rfl := Option.some.inj h
      exact ⟨ha, by rw [toRat_of_isZero hzero, add_zero]⟩
    · exact alignedSum?_whole ha hb h

theorem sub?_whole (ha : a.scale = 0) (hb : b.scale = 0) (h : a.sub? b = some d) :
    d.scale = 0 ∧ d.toRat = a.toRat - b.toRat := by
  unfold sub? at h
  rw [sub_eq_add_neg, ← toRat_neg]
  split at h
  · rename_i hzero
    obtain rfl := Option.some.inj h
    rw [toRat_of_isZero hzero, zero_add]
    split
    · rename_i hnone
      exact ⟨hb, by rw [toRat_neg, toRat_of_isZero hnone, neg_zero]⟩
    · exact ⟨hb, rfl⟩
  · split at h
    · rename_i hzero
      obtain rfl := Option.some.inj h
      exact ⟨ha, by rw [toRat_neg, toRat_of_isZero hzero, neg_zero, add_zero]⟩
    · exact alignedSum?_whole (b := b.neg) ha hb h

/-- Equal numbers with equally many places have one coefficient. -/
theorem coefficient_inj (hs : a.scale = b.scale) (h : a.toRat = b.toRat) :
    a.coefficient = b.coefficient := by
  unfold toRat at h
  rw [hs, div_left_inj' (ten_pow_ne_zero _)] at h
  exact_mod_cast h

/-- A quotient depends on the coefficient and the places alone. -/
theorem divCount?_congr (hc : a.coefficient = b.coefficient) (hs : a.scale = b.scale) (n : Nat) :
    a.divCount? n = b.divCount? n := by
  unfold divCount? isZero
  rw [← natAbs_coefficient a, ← natAbs_coefficient b, hc, hs]

end ConstraintScoring.Decimal
