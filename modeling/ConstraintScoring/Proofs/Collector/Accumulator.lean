import ConstraintScoring.Collector.Accumulator
import ConstraintScoring.Proofs.Collector.Tally
import ConstraintScoring.Proofs.Decimal.Exact
import ConstraintScoring.Proofs.Outcome
import Mathlib.Algebra.BigOperators.Group.Multiset.Basic

/-!
# What accumulators hold and show

An accumulator reflects the contributions it was given and has not had taken back. Of a decimal sum
this says nothing, as the running sum may have been rounded: it is exact if it is the sum of the
contributions as a number. Running sums that are equal as numbers may have different decimal places,
and a mean may depend on these, so it is said of two accumulators whether their means agree. Where
no contribution has decimal places, all sums are exact and all means agree.
-/

namespace ConstraintScoring

variable {V : Type} [Cell V]

namespace Contribution

def Fits : CollectorKind → Contribution V → Prop
  | .count, presence => True
  | .sum _, whole _ => True
  | .sumDecimal, decimal _ | .average, decimal _ => True
  | .min, value _ | .max, value _ | .countDistinct, value _ | .toSet, value _ | .toList, value _ =>
      True
  | _, _ => False

def wholePart : Contribution V → Int
  | whole n => n
  | _ => 0

def number : Contribution V → Rat
  | decimal d => d.toRat
  | _ => 0

def value? : Contribution V → Option V
  | value v => some v
  | _ => none

/-- A decimal without places, or no decimal. -/
def Whole : Contribution V → Prop
  | decimal d => d.scale = 0
  | _ => True

/-- Equal contributions; decimals count as numbers. -/
def Same : Contribution V → Contribution V → Prop
  | presence, presence => True
  | whole m, whole n => m = n
  | decimal d, decimal e => d.toRat = e.toRat
  | value v, value w => Cell.same v w = true
  | _, _ => False

end Contribution

theorem Contribution.Same.fits {c c' : Contribution V} {k : CollectorKind} (h : c.Same c')
    (hc : c'.Fits k) : c.Fits k := by
  cases k <;> cases c <;> cases c' <;> trivial

theorem Contribution.same_equivalence [Std.TransOrd V] :
    Equivalence (Contribution.Same : Contribution V → Contribution V → Prop) where
  refl c := by
    cases c with
    | value v => exact Cell.same_refl v
    | _ => trivial
  symm {c c'} h := by
    cases c <;> cases c' <;> simp only [Contribution.Same] at h ⊢
    · exact h.symm
    · exact h.symm
    · exact Cell.same_symm h
  trans {c c' c''} h h' := by
    cases c <;> cases c' <;> cases c'' <;> simp only [Contribution.Same] at h h' ⊢
    · exact h.trans h'
    · exact h.trans h'
    · exact Cell.same_trans h h'

/-- The values among some contributions. -/
def valuesOf (bag : Multiset (Contribution V)) : Multiset V := bag.filterMap (·.value?)

def wholeSum (bag : Multiset (Contribution V)) : Int := (bag.map (·.wholePart)).sum

def numberSum (bag : Multiset (Contribution V)) : Rat := (bag.map (·.number)).sum

namespace Collected

def Same : Collected V → Collected V → Prop
  | number m, number n => m = n
  | decimal d, decimal e => d.toRat = e.toRat
  | mean x, mean y => x = y
  | extreme (some v), extreme (some w) => Cell.same v w = true
  | extreme none, extreme none => True
  | values vs, values ws => List.Forall₂ (fun v w => Cell.same v w = true) vs ws
  | _, _ => False

end Collected

/-- The kinds that keep a running sum of decimals. -/
def CollectorKind.SumsDecimals (k : CollectorKind) : Prop := k = .sumDecimal ∨ k = .average

omit [Cell V] in
/-- Decimals are given to sums of decimals only. -/
theorem Contribution.Fits.sumsDecimals {d : Decimal} {k : CollectorKind}
    (h : (decimal d : Contribution V).Fits k) : k.SumsDecimals := by
  cases k with
  | sumDecimal => exact Or.inl rfl
  | average => exact Or.inr rfl
  | _ => exact False.elim h

/-- What stops a running sum. -/
def SumFault (f : Fault) : Prop :=
  f = .overflow .add ∨ f = .overflow .subtract ∨ f = .raised "Addition overflowed" ∨
    f = .raised "Subtraction overflowed"

namespace Accumulator

def kind : Accumulator V → CollectorKind
  | count _ => .count
  | sum range _ => .sum range
  | sumDecimal _ => .sumDecimal
  | average _ _ => .average
  | min _ => .min
  | max _ => .max
  | countDistinct _ => .countDistinct
  | toSet _ => .toSet
  | toList _ => .toList

def Reflects [Std.TransOrd V] : Accumulator V → Multiset (Contribution V) → Prop
  | count n, bag => n = bag.card
  | sum _ total, bag => total = wholeSum bag
  | sumDecimal _, _ => True
  | average _ n, bag => n = bag.card
  | min tally, bag | max tally, bag | countDistinct tally, bag | toSet tally, bag =>
      tally.Holds (valuesOf bag)
  | toList values, bag => values.Holds (valuesOf bag)

/-- The running sum of decimals is the sum of the contributions. -/
def Exact : Accumulator V → Multiset (Contribution V) → Prop
  | sumDecimal total, bag | average total _, bag => total.toRat = numberSum bag
  | _, _ => True

/-- The running sum of decimals is the sum of the contributions and has no decimal places. -/
def WholeSum : Accumulator V → Multiset (Contribution V) → Prop
  | sumDecimal total, bag | average total _, bag => total.scale = 0 ∧ total.toRat = numberSum bag
  | _, _ => True

/-- The means of as many contributions with equal sums are the same. -/
def MeansAgree : Accumulator V → Accumulator V → Prop
  | average total n, average total' n' =>
      total.toRat = total'.toRat → n = n' → mean? total n = mean? total' n'
  | _, _ => True

/-- A new accumulator that was given some contributions one by one. -/
def given (k : CollectorKind) (cs : List (Contribution V)) : Except Fault (Accumulator V) :=
  cs.foldlM accumulate (new k)

/-- The mean is that of every new accumulator that is given the contributions. -/
def Steady (a : Accumulator V) (bag : Multiset (Contribution V)) : Prop :=
  ∀ (cs : List (Contribution V)) b, (cs : Multiset (Contribution V)) = bag →
    given a.kind cs = .ok b → a.MeansAgree b

omit [Cell V] in
theorem meansAgree_of_ne {a b : Accumulator V} (ha : a.kind ≠ .average) : a.MeansAgree b := by
  cases a with
  | average _ _ => exact absurd rfl ha
  | _ => trivial

theorem steady_of_ne {a : Accumulator V} (ha : a.kind ≠ .average)
    (bag : Multiset (Contribution V)) : a.Steady bag :=
  fun _ _ _ _ => meansAgree_of_ne ha

omit [Cell V] in
/-- Without a sum of decimals nothing is rounded. -/
theorem exact_of_not_sums {a : Accumulator V} (ha : ¬a.kind.SumsDecimals)
    (bag : Multiset (Contribution V)) : a.Exact bag := by
  cases a with
  | sumDecimal _ => exact absurd (Or.inl rfl) ha
  | average _ _ => exact absurd (Or.inr rfl) ha
  | _ => trivial

section WholeSums

omit [Cell V]

variable {a b : Accumulator V} {bag bag' : Multiset (Contribution V)}

theorem WholeSum.exact (h : a.WholeSum bag) : a.Exact bag := by
  cases a with
  | sumDecimal _ => exact h.2
  | average _ _ => exact h.2
  | _ => trivial

/-- Equal running sums without decimal places have one mean. -/
theorem WholeSum.meansAgree (h : a.WholeSum bag) (h' : b.WholeSum bag') : a.MeansAgree b := by
  cases a with
  | average total n =>
      cases b with
      | average total' n' =>
          intro htotal hn
          have hscale := h.1.trans h'.1.symm
          unfold mean?
          rw [hn, Decimal.divCount?_congr (Decimal.coefficient_inj hscale htotal) hscale]
      | _ => trivial
  | _ => trivial

end WholeSums

omit [Cell V] in
@[simp] theorem kind_new (k : CollectorKind) : (new k : Accumulator V).kind = k := by cases k <;> rfl

omit [Cell V] in
theorem reset_eq_new (a : Accumulator V) : a.reset = new a.kind := by cases a <;> rfl

section Bags

variable {c : Contribution V} {v : V} {bag : Multiset (Contribution V)}

omit [Cell V] in
theorem wholeSum_cons : wholeSum (c ::ₘ bag) = c.wholePart + wholeSum bag := by
  simp [wholeSum]

omit [Cell V] in
theorem numberSum_cons : numberSum (c ::ₘ bag) = c.number + numberSum bag := by
  simp [numberSum]

omit [Cell V] in
theorem valuesOf_cons : valuesOf (.value v ::ₘ bag) = v ::ₘ valuesOf bag :=
  Multiset.filterMap_cons_some _ _ _ rfl

omit [Cell V] in
theorem coe_concat (cs : List (Contribution V)) (c : Contribution V) :
    ((cs ++ [c] : List (Contribution V)) : Multiset (Contribution V)) = c ::ₘ cs := by
  rw [Multiset.cons_coe, Multiset.coe_eq_coe]
  exact List.perm_append_singleton c cs

end Bags

section Steps

variable [Std.TransOrd V] {a a' : Accumulator V} {c : Contribution V} {f : Fault}

theorem reflects_new (k : CollectorKind) : (new k : Accumulator V).Reflects 0 := by
  cases k with
  | count => rfl
  | sum range => rfl
  | sumDecimal => trivial
  | average => rfl
  | min => exact Tally.holds_empty
  | max => exact Tally.holds_empty
  | countDistinct => exact Tally.holds_empty
  | toSet => exact Tally.holds_empty
  | toList => exact SortedList.holds_empty

omit [Cell V] [Std.TransOrd V] in
theorem inRange_eq {range : IntRange} {step : Overflow} {n : Int}
    (h : inRange range step n = .ok a') : a' = sum range n := by
  unfold inRange at h
  split at h
  · exact (Except.ok.inj h).symm
  · cases h

/-- Accumulating a contribution makes the accumulator reflect it as well. -/
theorem accumulate_reflects (h : a.accumulate c = .ok a') :
    a'.kind = a.kind ∧ ∀ bag, a.Reflects bag → a'.Reflects (c ::ₘ bag) := by
  cases a with
  | count n =>
      cases c <;> cases h
      exact ⟨rfl, fun bag hb => by simpa [Reflects] using hb⟩
  | sum range total =>
      cases c <;> try cases h
      rw [inRange_eq h]
      refine ⟨rfl, fun bag (hb : total = _) => ?_⟩
      change total + _ = _
      rw [wholeSum_cons, hb, Int.add_comm]
      rfl
  | sumDecimal total =>
      cases c with
      | decimal d =>
          obtain ⟨total', -, h⟩ := Outcome.bind_eq_ok.mp h
          obtain rfl := Except.ok.inj h
          exact ⟨rfl, fun _ _ => trivial⟩
      | _ => cases h
  | average total n =>
      cases c with
      | decimal d =>
          obtain ⟨total', -, h⟩ := Outcome.bind_eq_ok.mp h
          obtain rfl := Except.ok.inj h
          exact ⟨rfl, fun bag hb => by simpa [Reflects] using hb⟩
      | _ => cases h
  | min tally | max tally | countDistinct tally | toSet tally =>
      cases c <;> cases h
      refine ⟨rfl, fun bag hb => ?_⟩
      simp only [Reflects, valuesOf_cons]
      exact Tally.Holds.insert hb _
  | toList values =>
      cases c <;> cases h
      refine ⟨rfl, fun bag hb => ?_⟩
      simp only [Reflects, valuesOf_cons]
      exact SortedList.Holds.insert hb _

/-- Retracting a contribution makes the accumulator forget it. -/
theorem retract_reflects (h : a.retract c = .ok a') :
    a'.kind = a.kind ∧ ∀ bag, a.Reflects (c ::ₘ bag) → a'.Reflects bag := by
  cases a with
  | count n =>
      cases c <;> cases h
      refine ⟨rfl, fun bag (hb : n = _) => ?_⟩
      rw [Multiset.card_cons] at hb
      exact Nat.sub_eq_of_eq_add hb
  | sum range total =>
      cases c <;> try cases h
      rw [inRange_eq h]
      refine ⟨rfl, fun bag (hb : total = _) => ?_⟩
      rw [wholeSum_cons] at hb
      change total - _ = _
      rw [hb]
      exact add_sub_cancel_left _ _
  | sumDecimal total =>
      cases c with
      | decimal d =>
          obtain ⟨total', -, h⟩ := Outcome.bind_eq_ok.mp h
          obtain rfl := Except.ok.inj h
          exact ⟨rfl, fun _ _ => trivial⟩
      | _ => cases h
  | average total n =>
      cases c with
      | decimal d =>
          obtain ⟨total', -, h⟩ := Outcome.bind_eq_ok.mp h
          obtain rfl := Except.ok.inj h
          refine ⟨rfl, fun bag (hb : n = _) => ?_⟩
          rw [Multiset.card_cons] at hb
          exact Nat.sub_eq_of_eq_add hb
      | _ => cases h
  | min tally | max tally | countDistinct tally | toSet tally =>
      cases c <;> cases h
      refine ⟨rfl, fun bag hb => ?_⟩
      simp only [Reflects, valuesOf_cons] at hb
      exact Tally.Holds.remove hb
  | toList values =>
      cases c <;> cases h
      refine ⟨rfl, fun bag hb => ?_⟩
      simp only [Reflects, valuesOf_cons] at hb
      exact SortedList.Holds.remove hb

omit [Cell V] [Std.TransOrd V] in
theorem addDecimal_whole {total d total' : Decimal} (htotal : total.scale = 0) (hd : d.scale = 0)
    (h : addDecimal total d = .ok total') :
    total'.scale = 0 ∧ total'.toRat = total.toRat + d.toRat := by
  unfold addDecimal at h
  split at h
  · rename_i hadd
    obtain rfl := Except.ok.inj h
    exact Decimal.add?_whole htotal hd hadd
  · cases h

omit [Cell V] [Std.TransOrd V] in
theorem subtractDecimal_whole {total d total' : Decimal} (htotal : total.scale = 0)
    (hd : d.scale = 0) (h : subtractDecimal total d = .ok total') :
    total'.scale = 0 ∧ total'.toRat = total.toRat - d.toRat := by
  unfold subtractDecimal at h
  split at h
  · rename_i hsub
    obtain rfl := Except.ok.inj h
    exact Decimal.sub?_whole htotal hd hsub
  · cases h

omit [Std.TransOrd V] in
/-- A sum without decimal places has none after one more contribution without. -/
theorem accumulate_wholeSum (hc : c.Whole) (h : a.accumulate c = .ok a')
    {bag : Multiset (Contribution V)} (hw : a.WholeSum bag) : a'.WholeSum (c ::ₘ bag) := by
  cases a with
  | sumDecimal total | average total n =>
      cases c with
      | decimal d =>
          obtain ⟨total', htotal, h⟩ := Outcome.bind_eq_ok.mp h
          obtain rfl := Except.ok.inj h
          obtain ⟨hscale, hsum⟩ := addDecimal_whole hw.1 hc htotal
          refine ⟨hscale, ?_⟩
          rw [hsum, hw.2, numberSum_cons, add_comm]
          rfl
      | _ => cases h
  | sum range total =>
      cases c <;> try cases h
      rw [inRange_eq h]
      trivial
  | _ =>
      cases c <;> cases h
      trivial

omit [Std.TransOrd V] in
theorem retract_wholeSum (hc : c.Whole) (h : a.retract c = .ok a')
    {bag : Multiset (Contribution V)} (hw : a.WholeSum (c ::ₘ bag)) : a'.WholeSum bag := by
  cases a with
  | sumDecimal total | average total n =>
      cases c with
      | decimal d =>
          obtain ⟨total', htotal, h⟩ := Outcome.bind_eq_ok.mp h
          obtain rfl := Except.ok.inj h
          obtain ⟨hscale, hsum⟩ := subtractDecimal_whole hw.1 hc htotal
          refine ⟨hscale, ?_⟩
          rw [hsum, hw.2, numberSum_cons]
          exact add_sub_cancel_left _ _
      | _ => cases h
  | sum range total =>
      cases c <;> try cases h
      rw [inRange_eq h]
      trivial
  | _ =>
      cases c <;> cases h
      trivial

omit [Cell V] [Std.TransOrd V] in
theorem wholeSum_new (k : CollectorKind) : (new k : Accumulator V).WholeSum 0 := by
  cases k with
  | sumDecimal => exact ⟨rfl, Decimal.toRat_zero⟩
  | average => exact ⟨rfl, Decimal.toRat_zero⟩
  | _ => trivial

omit [Std.TransOrd V] in
theorem given_concat {k : CollectorKind} {cs : List (Contribution V)} :
    given k (cs ++ [c]) = .ok a ↔ ∃ b, given k cs = .ok b ∧ b.accumulate c = .ok a := by
  unfold given
  rw [List.foldlM_append, Outcome.bind_eq_ok]
  simp only [List.foldlM_cons, List.foldlM_nil, bind_pure]

theorem given_reflects {k : CollectorKind} {cs : List (Contribution V)} (h : given k cs = .ok a) :
    a.kind = k ∧ a.Reflects cs := by
  induction cs using List.reverseRecOn generalizing a with
  | nil =>
      obtain rfl := Except.ok.inj h
      exact ⟨kind_new k, reflects_new k⟩
  | append_singleton cs c ih =>
      obtain ⟨b, hb, ha⟩ := given_concat.mp h
      obtain ⟨hkind, hreflects⟩ := ih hb
      obtain ⟨hkind', hstep⟩ := accumulate_reflects ha
      exact ⟨hkind'.trans hkind, coe_concat cs c ▸ hstep _ hreflects⟩

omit [Std.TransOrd V] in
theorem given_wholeSum {k : CollectorKind} {cs : List (Contribution V)} (hcs : ∀ c ∈ cs, c.Whole)
    (h : given k cs = .ok a) : a.WholeSum cs := by
  induction cs using List.reverseRecOn generalizing a with
  | nil =>
      obtain rfl := Except.ok.inj h
      exact wholeSum_new k
  | append_singleton cs c ih =>
      obtain ⟨b, hb, ha⟩ := given_concat.mp h
      rw [coe_concat]
      exact accumulate_wholeSum (hcs c (by simp)) ha
        (ih (fun c' hc' => hcs c' (List.mem_append_left _ hc')) hb)

omit [Std.TransOrd V] in
/-- Where no contribution has decimal places, a mean is that of every new accumulator. -/
theorem WholeSum.steady {bag : Multiset (Contribution V)} (h : a.WholeSum bag)
    (hbag : ∀ c ∈ bag, c.Whole) : a.Steady bag := by
  rintro cs b rfl hb
  exact h.meansAgree (given_wholeSum (fun c hc => hbag c (Multiset.mem_coe.mpr hc)) hb)

omit [Std.TransOrd V] in
theorem accumulate_fits (h : a.accumulate c = .ok a') : c.Fits a.kind := by
  cases a <;> cases c <;> trivial

omit [Cell V] [Std.TransOrd V] in
theorem inRange_fault {range : IntRange} {step : Overflow} {n : Int}
    (h : (inRange range step n : Except Fault (Accumulator V)) = .error f) :
    f = .overflow step := by
  unfold inRange at h
  split at h
  · cases h
  · exact (Except.error.inj h).symm

omit [Std.TransOrd V] in
/-- Only a sum that leaves its range stops an accumulator that is given what it can hold. -/
theorem accumulate_fault (h : a.accumulate c = .error f) (hc : c.Fits a.kind) : SumFault f := by
  have hadd : ∀ total d, addDecimal total d = .error f → SumFault f := by
    intro total d h
    unfold addDecimal at h
    split at h
    · cases h
    · exact Or.inr (Or.inr (Or.inl (Except.error.inj h).symm))
  cases a with
  | sum range total =>
      cases c with
      | whole n => exact Or.inl (inRange_fault h)
      | _ => cases hc
  | sumDecimal total =>
      cases c with
      | decimal d =>
          rcases Outcome.bind_eq_error.mp h with h | ⟨_, -, h⟩
          · exact hadd total d h
          · cases h
      | _ => cases hc
  | average total n =>
      cases c with
      | decimal d =>
          rcases Outcome.bind_eq_error.mp h with h | ⟨_, -, h⟩
          · exact hadd total d h
          · cases h
      | _ => cases hc
  | _ => cases c <;> first | exact False.elim hc | cases h

omit [Std.TransOrd V] in
theorem retract_fault (h : a.retract c = .error f) (hc : c.Fits a.kind) : SumFault f := by
  have hsub : ∀ total d, subtractDecimal total d = .error f → SumFault f := by
    intro total d h
    unfold subtractDecimal at h
    split at h
    · cases h
    · exact Or.inr (Or.inr (Or.inr (Except.error.inj h).symm))
  cases a with
  | sum range total =>
      cases c with
      | whole n => exact Or.inr (Or.inl (inRange_fault h))
      | _ => cases hc
  | sumDecimal total =>
      cases c with
      | decimal d =>
          rcases Outcome.bind_eq_error.mp h with h | ⟨_, -, h⟩
          · exact hsub total d h
          · cases h
      | _ => cases hc
  | average total n =>
      cases c with
      | decimal d =>
          rcases Outcome.bind_eq_error.mp h with h | ⟨_, -, h⟩
          · exact hsub total d h
          · cases h
      | _ => cases hc
  | _ => cases c <;> first | exact False.elim hc | cases h

end Steps

end Accumulator

/-- What a collector shows of some contributions. Which of several equal values stands for them is
left open. A mean is that of a decimal which is their sum, and it is the one that a new accumulator
shows which is given the contributions in any order, as long as its running sum is exact. -/
def Shows [Std.TransOrd V] (k : CollectorKind) (bag : Multiset (Contribution V))
    (x : Collected V) : Prop :=
  match k with
  | .count => x = .number bag.card
  | .sum _ => x = .number (wholeSum bag)
  | .sumDecimal => ∃ d, d.toRat = numberSum bag ∧ x = .decimal d
  | .average =>
      (∃ d : Decimal, d.toRat = numberSum bag ∧ x = .mean (Accumulator.mean? d bag.card)) ∧
      ∀ (cs : List (Contribution V)) a, (cs : Multiset (Contribution V)) = bag →
        Accumulator.given .average cs = .ok a → a.Exact bag → x = a.finish
  | .min => ∃ vs, Ascending vs ∧ Covers vs (valuesOf bag) ∧ x = .extreme vs.head?
  | .max => ∃ vs, Ascending vs ∧ Covers vs (valuesOf bag) ∧ x = .extreme vs.getLast?
  | .countDistinct => ∃ vs, Ascending vs ∧ Covers vs (valuesOf bag) ∧ x = .number vs.length
  | .toSet => ∃ vs, Ascending vs ∧ Covers vs (valuesOf bag) ∧ x = .values vs
  | .toList => ∃ s : SortedList V, s.Holds (valuesOf bag) ∧ x = .values s.values

section Shows

variable [Std.TransOrd V] {bag bag' : Multiset (Contribution V)} {k : CollectorKind}

/-- What an accumulator shows is what its collector shows of the contributions it reflects. -/
theorem Accumulator.finish_shows {a : Accumulator V} (h : a.Reflects bag) (hexact : a.Exact bag)
    (hsteady : a.Steady bag) : Shows a.kind bag a.finish := by
  cases a with
  | count n => exact congrArg (fun n : Nat => Collected.number n) h
  | sum range total => exact congrArg Collected.number h
  | sumDecimal total => exact ⟨total, hexact, rfl⟩
  | average total n =>
      obtain rfl : n = bag.card := h
      refine ⟨⟨total, hexact, rfl⟩, fun cs b hcs hb hbexact => ?_⟩
      obtain ⟨hkind, hreflects⟩ := given_reflects hb
      have hmeans := hsteady cs b hcs hb
      cases b with
      | average total' n' =>
          subst hcs
          have htotal : total.toRat = total'.toRat := Eq.trans hexact hbexact.symm
          exact congrArg Collected.mean (hmeans htotal hreflects.symm)
      | _ => cases hkind
  | min tally | max tally | countDistinct tally | toSet tally =>
      exact ⟨tally.values, h.ascending, Tally.Holds.covers h, rfl⟩
  | toList values => exact ⟨values, h, rfl⟩

omit [Std.TransOrd V] in
theorem wholeSum_congr (h : Multiset.Rel Contribution.Same bag bag') :
    wholeSum bag = wholeSum bag' := by
  unfold wholeSum
  refine congrArg Multiset.sum (Multiset.rel_eq.mp (Bag.rel_map_of h fun c d hcd => ?_))
  cases c <;> cases d <;> first | exact False.elim hcd | rfl | exact hcd

omit [Std.TransOrd V] in
theorem numberSum_congr (h : Multiset.Rel Contribution.Same bag bag') :
    numberSum bag = numberSum bag' := by
  unfold numberSum
  refine congrArg Multiset.sum (Multiset.rel_eq.mp (Bag.rel_map_of h fun c d hcd => ?_))
  cases c <;> cases d <;> first | exact False.elim hcd | rfl | exact hcd

omit [Std.TransOrd V] in
theorem valuesOf_congr (h : Multiset.Rel Contribution.Same bag bag') :
    Multiset.Rel (fun v w => Cell.same v w = true) (valuesOf bag) (valuesOf bag') := by
  refine Bag.rel_filterMap h fun c d hcd => ?_
  cases c <;> cases d <;> first | exact False.elim hcd | exact .none | exact .some hcd

theorem SortedList.unique {vs ws : List V} (hv : vs.Pairwise fun a b => compare a b ≠ .gt)
    (hw : ws.Pairwise fun a b => compare a b ≠ .gt)
    (h : Multiset.Rel (fun a b => Cell.same a b = true) (vs : Multiset V) ws) :
    List.Forall₂ (fun a b => Cell.same a b = true) vs ws := by
  induction vs generalizing ws with
  | nil =>
      rw [Multiset.coe_nil, Multiset.rel_zero_left, Multiset.coe_eq_zero] at h
      rw [h]
      exact .nil
  | cons a vs ih =>
      cases ws with
      | nil => simp at h
      | cons b ws =>
          obtain ⟨ha, hvs⟩ := List.pairwise_cons.mp hv
          obtain ⟨hb, hws⟩ := List.pairwise_cons.mp hw
          have hle : ∀ {x y : V} {xs : List V}, (∀ z ∈ xs, compare x z ≠ .gt) →
              (∃ z ∈ ((x :: xs : List V) : Multiset V), Cell.same y z = true) →
              compare y x ≠ .lt := by
            rintro x y xs hx ⟨z, hz, hyz⟩ hlt
            rw [Cell.compare_congr hyz (Cell.same_refl x)] at hlt
            rcases List.mem_cons.mp hz with rfl | hz
            · rw [Cell.compare_self] at hlt
              cases hlt
            · exact hx z hz (Std.OrientedCmp.gt_of_lt hlt)
          have hab : Cell.same a b = true := by
            refine same_of_not_lt (hle hb ?_) (hle ha ?_)
            · exact Multiset.exists_mem_of_rel_of_mem h (by simp)
            · exact Multiset.exists_mem_of_rel_of_mem (Bag.rel_symm same_equivalence h) (by simp)
          rw [← Multiset.cons_coe, ← Multiset.cons_coe] at h
          exact .cons hab (ih hvs hws (Bag.rel_cancel same_equivalence h hab))

theorem covers_unique {vs ws : List V} (hv : Ascending vs) (hw : Ascending ws)
    (hcv : Covers vs (valuesOf bag)) (hcw : Covers ws (valuesOf bag'))
    (h : Multiset.Rel Contribution.Same bag bag') :
    List.Forall₂ (fun a b => Cell.same a b = true) vs ws :=
  ascending_unique hv hw fun w =>
    (covers_congr hcv (valuesOf_congr h) w).trans (hcw w).symm

omit [Std.TransOrd V] in
theorem extreme_head {vs ws : List V} (h : List.Forall₂ (fun a b => Cell.same a b = true) vs ws) :
    (Collected.extreme vs.head?).Same (.extreme ws.head?) := by
  cases h with
  | nil => trivial
  | cons hab _ => exact hab

/-- Equal contributions are shown alike, means apart. -/
theorem Shows.unique {x y : Collected V} (hx : Shows k bag x) (hy : Shows k bag' y)
    (hk : k ≠ .average) (h : Multiset.Rel Contribution.Same bag bag') : x.Same y := by
  have hcard := Multiset.card_eq_card_of_rel h
  cases k with
  | count =>
      obtain rfl : x = _ := hx
      obtain rfl : y = _ := hy
      exact congrArg Int.ofNat hcard
  | sum range =>
      obtain rfl : x = _ := hx
      obtain rfl : y = _ := hy
      exact wholeSum_congr h
  | sumDecimal =>
      obtain ⟨d, hd, rfl⟩ := hx
      obtain ⟨e, he, rfl⟩ := hy
      exact hd.trans ((numberSum_congr h).trans he.symm)
  | average => exact absurd rfl hk
  | min =>
      obtain ⟨vs, hv, hcv, rfl⟩ := hx
      obtain ⟨ws, hw, hcw, rfl⟩ := hy
      exact extreme_head (covers_unique hv hw hcv hcw h)
  | max =>
      obtain ⟨vs, hv, hcv, rfl⟩ := hx
      obtain ⟨ws, hw, hcw, rfl⟩ := hy
      rw [List.getLast?_eq_head?_reverse, List.getLast?_eq_head?_reverse]
      exact extreme_head (List.rel_reverse (covers_unique hv hw hcv hcw h))
  | countDistinct =>
      obtain ⟨vs, hv, hcv, rfl⟩ := hx
      obtain ⟨ws, hw, hcw, rfl⟩ := hy
      exact congrArg Int.ofNat (covers_unique hv hw hcv hcw h).length_eq
  | toSet =>
      obtain ⟨vs, hv, hcv, rfl⟩ := hx
      obtain ⟨ws, hw, hcw, rfl⟩ := hy
      exact covers_unique hv hw hcv hcw h
  | toList =>
      obtain ⟨s, hs, rfl⟩ := hx
      obtain ⟨t, ht, rfl⟩ := hy
      exact SortedList.unique hs.ascending ht.ascending (Bag.rel_trans same_equivalence
        (Bag.rel_trans same_equivalence hs.values (valuesOf_congr h))
        (Bag.rel_symm same_equivalence ht.values))

/-- Accumulators with exact sums that reflect equal contributions show equal things if their means
agree. -/
theorem Accumulator.finish_same {a b : Accumulator V} (hkind : b.kind = a.kind)
    (ha : a.Reflects bag) (hb : b.Reflects bag') (hexact : a.Exact bag) (hexact' : b.Exact bag')
    (hmeans : a.MeansAgree b) (h : Multiset.Rel Contribution.Same bag bag') :
    a.finish.Same b.finish := by
  by_cases hk : a.kind = .average
  · cases a with
    | average total n =>
        cases b with
        | average total' n' =>
            have htotal : total.toRat = total'.toRat :=
              Eq.trans hexact ((numberSum_congr h).trans hexact'.symm)
            exact hmeans htotal (Eq.trans ha ((Multiset.card_eq_card_of_rel h).trans hb.symm))
        | _ => cases hkind
    | _ => cases hk
  · have hshows := finish_shows ha hexact (steady_of_ne hk bag)
    have hshows' := finish_shows hb hexact' (steady_of_ne (hkind ▸ hk) bag')
    rw [hkind] at hshows'
    exact hshows.unique hshows' hk h

end Shows

end ConstraintScoring
