import ConstraintScoring.Proofs.Coin
import ConstraintScoring.Proofs.Collector.Accumulator
import ConstraintScoring.Proofs.Decimal.Exact

/-!
# Collectors and what remains

An accumulator is given contributions, has some of them taken back and is reset now and then. What
it shows depends on the contributions that remain alone, and so it is what a new accumulator shows
that is given those, in whatever order. A running sum has to be a number of its type at all times:
one of integers fails otherwise, and one of decimals is rounded or fails.
-/

namespace ConstraintScoring

variable {V : Type} [Cell V]

/-- A call on an accumulator. -/
inductive CollectorCall (V : Type) where
  | accumulate (c : Contribution V)
  | retract (c : Contribution V)
  | reset

namespace CollectorCall

def Fits (k : CollectorKind) : CollectorCall V → Prop
  | accumulate c | retract c => c.Fits k
  | reset => True

/-- What a call makes of the contributions before it; a retraction takes one away that is equal to
what it is given. -/
inductive Leaves : CollectorCall V → Multiset (Contribution V) → Multiset (Contribution V) → Prop
  | accumulate (c : Contribution V) (bag : Multiset (Contribution V)) :
      Leaves (.accumulate c) bag (c ::ₘ bag)
  | retract {c c' : Contribution V} (h : c.Same c') (bag : Multiset (Contribution V)) :
      Leaves (.retract c) (c' ::ₘ bag) bag
  | reset (bag : Multiset (Contribution V)) : Leaves .reset bag 0

/-- The contributions that remain after some calls. -/
inductive Remains : List (CollectorCall V) → Multiset (Contribution V) → Prop
  | nil : Remains [] 0
  | concat {calls : List (CollectorCall V)} {u : CollectorCall V}
      {bag bag' : Multiset (Contribution V)} (h : Remains calls bag) (hu : u.Leaves bag bag') :
      Remains (calls ++ [u]) bag'

/-- Giving contributions one by one. -/
def feed (cs : List (Contribution V)) : List (CollectorCall V) := cs.map .accumulate

end CollectorCall

open CollectorCall

/-- The sum of the contributions, if one is kept, is a number of its type. -/
def CollectorKind.Keeps (k : CollectorKind) (bag : Multiset (Contribution V)) : Prop :=
  match k with
  | .sum range => range.Contains (wholeSum bag)
  | .sumDecimal | .average => Decimal.Represents (numberSum bag)
  | _ => True

/-- After each call the sum of what remains, if one is kept, is a number of its type. -/
def CollectorKind.KeepsThroughout (k : CollectorKind) (calls : List (CollectorCall V)) : Prop :=
  ∀ before, before <+: calls → ∀ bag, Remains before bag → k.Keeps bag

namespace Accumulator

def call : Accumulator V → CollectorCall V → Except Fault (Accumulator V)
  | a, .accumulate c => a.accumulate c
  | a, .retract c => a.retract c
  | a, .reset => .ok a.reset

/-- A new accumulator after some calls. -/
def after (k : CollectorKind) (calls : List (CollectorCall V)) : Except Fault (Accumulator V) :=
  calls.foldlM call (new k)

end Accumulator

/-- None of no values, else one that is the same as one of them and stands in the relation to all
of them. -/
def Extreme (r : V → V → Prop) (vs : Multiset V) : Option V → Prop
  | none => vs = 0
  | some v => (∃ w ∈ vs, Cell.same v w = true) ∧ ∀ w ∈ vs, r v w

/-- One value each for those that are the same. -/
structure OneEach (vs : List V) (bag : Multiset V) : Prop where
  distinct : vs.Pairwise fun v w => ¬Cell.same v w = true
  covers : Covers vs bag

/-- What is to be shown of some contributions. -/
def Tells (k : CollectorKind) (bag : Multiset (Contribution V)) (x : Collected V) : Prop :=
  match k with
  | .count => x = .number bag.card
  | .sum _ => x = .number (wholeSum bag)
  | .sumDecimal => ∃ d : Decimal, d.toRat = numberSum bag ∧ x = .decimal d
  | .average => ∃ d : Decimal, d.toRat = numberSum bag ∧ x = .mean (Accumulator.mean? d bag.card)
  | .min => ∃ v?, Extreme (fun v w => compare v w ≠ .gt) (valuesOf bag) v? ∧ x = .extreme v?
  | .max => ∃ v?, Extreme (fun v w => compare v w ≠ .lt) (valuesOf bag) v? ∧ x = .extreme v?
  | .countDistinct => ∃ vs, OneEach vs (valuesOf bag) ∧ x = .number vs.length
  | .toSet => ∃ vs, OneEach vs (valuesOf bag) ∧ x = .values vs
  | .toList => ∃ vs : List V, vs.Pairwise (fun v w => compare v w ≠ .gt) ∧
      Multiset.Rel (fun v w => Cell.same v w = true) vs (valuesOf bag) ∧ x = .values vs

section Values

variable [Std.TransOrd V] {vs : List V} {bag bag' : Multiset V}

theorem Covers.eq_zero (h : Covers [] bag) : bag = 0 := by
  refine Multiset.eq_zero_of_forall_notMem fun w hw => ?_
  obtain ⟨v, hv, -⟩ := (h w).mpr ⟨w, hw, Cell.same_refl w⟩
  cases hv

/-- How a value compares with those of a list is how it compares with those they cover. -/
theorem Covers.forall_compare {p : Ordering → Prop} {v : V} (h : Covers vs bag)
    (hv : ∀ w ∈ vs, p (compare v w)) : ∀ w ∈ bag, p (compare v w) := by
  intro w hw
  obtain ⟨u, hu, huw⟩ := (h w).mpr ⟨w, hw, Cell.same_refl w⟩
  rw [← Cell.compare_congr (Cell.same_refl v) huw]
  exact hv u hu

theorem Covers.exists_same {v : V} (h : Covers vs bag) (hv : v ∈ vs) :
    ∃ w ∈ bag, Cell.same v w = true := by
  obtain ⟨w, hw, hwv⟩ := (h v).mp ⟨v, hv, Cell.same_refl v⟩
  exact ⟨w, hw, Cell.same_symm hwv⟩

/-- The first of ascending values is the least of those they cover. -/
theorem Ascending.head_extreme (ha : Ascending vs) (h : Covers vs bag) :
    Extreme (fun v w => compare v w ≠ .gt) bag vs.head? := by
  cases vs with
  | nil => exact h.eq_zero
  | cons v vs =>
      obtain ⟨hless, -⟩ := List.pairwise_cons.mp ha
      refine ⟨h.exists_same List.mem_cons_self,
        h.forall_compare (p := fun o => o ≠ .gt) fun w hw => ?_⟩
      rcases List.mem_cons.mp hw with rfl | hw
      · simp
      · simp [hless w hw]

/-- The last of ascending values is the greatest of those they cover. -/
theorem Ascending.last_extreme (ha : Ascending vs) (h : Covers vs bag) :
    Extreme (fun v w => compare v w ≠ .lt) bag vs.getLast? := by
  cases hlast : vs.getLast? with
  | none =>
      rw [List.getLast?_eq_none_iff.mp hlast] at h
      exact h.eq_zero
  | some v =>
      obtain ⟨init, rfl⟩ := List.getLast?_eq_some_iff.mp hlast
      obtain ⟨-, -, hless⟩ := List.pairwise_append.mp ha
      refine ⟨h.exists_same (by simp), h.forall_compare (p := fun o => o ≠ .lt) fun w hw => ?_⟩
      rcases List.mem_append.mp hw with hw | hw
      · simp [Std.OrientedCmp.gt_of_lt (hless w hw v (List.mem_singleton_self v))]
      · simp [List.mem_singleton.mp hw]

omit [Std.TransOrd V] in
theorem Ascending.oneEach (ha : Ascending vs) (h : Covers vs bag) : OneEach vs bag where
  distinct := List.Pairwise.imp (fun hlt hsame => by
    rw [Cell.same_iff, hlt] at hsame
    cases hsame) ha
  covers := h

theorem Tally.Holds.congr {t : Tally V} (h : t.Holds bag)
    (hsame : Multiset.Rel (fun v w => Cell.same v w = true) bag bag') : t.Holds bag' := by
  refine ⟨h.ascending, h.positive, fun w => (h.count w).trans ?_⟩
  rw [Multiset.countP_eq_card_filter, Multiset.countP_eq_card_filter]
  refine Multiset.card_eq_card_of_rel (Bag.rel_filter hsame fun u v huv => ?_)
  exact ⟨Cell.same_trans (Cell.same_symm huv), Cell.same_trans huv⟩

theorem SortedList.Holds.congr {s : SortedList V} (h : s.Holds bag)
    (hsame : Multiset.Rel (fun v w => Cell.same v w = true) bag bag') : s.Holds bag' :=
  ⟨h.ascending, Bag.rel_trans same_equivalence h.values hsame⟩

end Values

/-- What a collector shows is what is to be shown. -/
theorem Shows.tells [Std.TransOrd V] {k : CollectorKind} {bag : Multiset (Contribution V)}
    {x : Collected V} (h : Shows k bag x) : Tells k bag x := by
  cases k with
  | count => exact h
  | sum range => exact h
  | sumDecimal => exact h
  | average =>
      obtain ⟨⟨d, hd, hx⟩, -⟩ := h
      exact ⟨d, hd, hx⟩
  | min =>
      obtain ⟨vs, ha, hc, rfl⟩ := h
      exact ⟨_, ha.head_extreme hc, rfl⟩
  | max =>
      obtain ⟨vs, ha, hc, rfl⟩ := h
      exact ⟨_, ha.last_extreme hc, rfl⟩
  | countDistinct =>
      obtain ⟨vs, ha, hc, rfl⟩ := h
      exact ⟨vs, ha.oneEach hc, rfl⟩
  | toSet =>
      obtain ⟨vs, ha, hc, rfl⟩ := h
      exact ⟨vs, ha.oneEach hc, rfl⟩
  | toList =>
      obtain ⟨s, hs, rfl⟩ := h
      exact ⟨s.values, hs.ascending, hs.values, rfl⟩

namespace CollectorCall

variable {calls : List (CollectorCall V)} {bag : Multiset (Contribution V)} {k : CollectorKind}

omit [Cell V] in
theorem fits_of_concat {last : CollectorCall V} (h : ∀ u ∈ calls ++ [last], u.Fits k) :
    (∀ u ∈ calls, u.Fits k) ∧ last.Fits k :=
  ⟨fun u hu => h u (List.mem_append_left _ hu), h last (by simp)⟩

theorem Remains.fits (h : Remains calls bag) (hfits : ∀ u ∈ calls, u.Fits k) :
    ∀ c ∈ bag, c.Fits k := by
  induction h with
  | nil => simp
  | concat _ hu ih =>
      obtain ⟨hcalls, hlast⟩ := fits_of_concat hfits
      cases hu with
      | accumulate c bag =>
          intro c' hc'
          rcases Multiset.mem_cons.mp hc' with rfl | hc'
          · exact hlast
          · exact ih hcalls c' hc'
      | retract _ bag => exact fun c hc => ih hcalls c (Multiset.mem_cons_of_mem hc)
      | reset => simp

theorem Remains.of_concat {u : CollectorCall V} (h : Remains (calls ++ [u]) bag) :
    ∃ before, Remains calls before ∧ u.Leaves before bag := by
  generalize hl : calls ++ [u] = all at h
  cases h with
  | nil => simp at hl
  | concat h hu =>
      obtain ⟨rfl, hlast⟩ := List.append_inj' hl rfl
      obtain rfl := List.singleton_inj.mp hlast
      exact ⟨_, h, hu⟩

theorem Leaves.congr [Std.TransOrd V] {u : CollectorCall V} {s s' t t' : Multiset (Contribution V)}
    (h : u.Leaves s t) (h' : u.Leaves s' t') (hsame : Multiset.Rel Contribution.Same s s') :
    Multiset.Rel Contribution.Same t t' := by
  have hequiv := Contribution.same_equivalence (V := V)
  cases h with
  | accumulate c _ =>
      cases h'
      exact .cons (hequiv.refl c) hsame
  | retract hc _ =>
      cases h' with
      | retract hc' _ => exact Bag.rel_cancel hequiv hsame (hequiv.trans (hequiv.symm hc) hc')
  | reset _ =>
      cases h'
      exact .zero

/-- What remains is determined up to equal contributions. -/
theorem Remains.unique [Std.TransOrd V] {bag' : Multiset (Contribution V)} (h : Remains calls bag)
    (h' : Remains calls bag') : Multiset.Rel Contribution.Same bag bag' := by
  induction h generalizing bag' with
  | nil =>
      generalize hl : ([] : List (CollectorCall V)) = all at h'
      cases h' with
      | nil => exact .zero
      | concat => simp at hl
  | concat _ hu ih =>
      obtain ⟨before, hbefore, hu'⟩ := h'.of_concat
      exact hu.congr hu' (ih hbefore)

theorem feed_remains (cs : List (Contribution V)) : Remains (feed cs) cs := by
  induction cs using List.reverseRecOn with
  | nil => exact .nil
  | append_singleton cs c ih =>
      rw [Accumulator.coe_concat, feed, List.map_append]
      exact ih.concat (.accumulate c _)

theorem feed_fits {cs : List (Contribution V)} (h : ∀ c ∈ bag, c.Fits k)
    (hsame : Multiset.Rel Contribution.Same (cs : Multiset (Contribution V)) bag) :
    ∀ u ∈ feed cs, u.Fits k := by
  intro u hu
  obtain ⟨c, hc, rfl⟩ := List.mem_map.mp hu
  obtain ⟨c', hc', hcc⟩ := Multiset.exists_mem_of_rel_of_mem hsame (Multiset.mem_coe.mpr hc)
  exact hcc.fits (h c' hc')

end CollectorCall

theorem CollectorKind.KeepsThroughout.of_concat {k : CollectorKind} {calls : List (CollectorCall V)}
    {u : CollectorCall V} (h : k.KeepsThroughout (calls ++ [u])) : k.KeepsThroughout calls :=
  fun before hbefore => h before (hbefore.trans (List.prefix_append ..))

/-- The sum that is kept is the same for equal contributions. -/
theorem CollectorKind.Keeps.congr {k : CollectorKind} {bag bag' : Multiset (Contribution V)}
    (h : k.Keeps bag) (hsame : Multiset.Rel Contribution.Same bag bag') : k.Keeps bag' := by
  cases k with
  | sum range => exact (congrArg range.Contains (wholeSum_congr hsame)).mp h
  | sumDecimal => exact (congrArg Decimal.Represents (numberSum_congr hsame)).mp h
  | average => exact (congrArg Decimal.Represents (numberSum_congr hsame)).mp h
  | _ => trivial

theorem CollectorKind.keepsThroughout_nil [Std.TransOrd V] {k : CollectorKind}
    (h : k.Keeps (0 : Multiset (Contribution V))) :
    k.KeepsThroughout ([] : List (CollectorCall V)) := by
  intro before hbefore bag hremains
  rw [List.prefix_nil.mp hbefore] at hremains
  exact h.congr (Remains.nil.unique hremains)

/-- The calls one by one: it is enough to look at one way in which contributions remain. -/
theorem CollectorKind.KeepsThroughout.concat [Std.TransOrd V] {k : CollectorKind}
    {calls : List (CollectorCall V)} {u : CollectorCall V} {bag : Multiset (Contribution V)}
    (h : k.KeepsThroughout calls) (hremains : Remains (calls ++ [u]) bag) (hk : k.Keeps bag) :
    k.KeepsThroughout (calls ++ [u]) := by
  intro before hbefore bag' hremains'
  rcases List.prefix_concat_iff.mp hbefore with rfl | hbefore
  · exact hk.congr (hremains.unique hremains')
  · exact h before hbefore bag' hremains'

theorem CollectorKind.KeepsThroughout.last {k : CollectorKind} {calls : List (CollectorCall V)}
    {bag : Multiset (Contribution V)} (h : k.KeepsThroughout calls) (hremains : Remains calls bag) :
    k.Keeps bag :=
  h calls List.prefix_rfl bag hremains

namespace Accumulator

section Steps

variable [Std.TransOrd V] {a a' : Accumulator V} {c : Contribution V}
  {bag bag' : Multiset (Contribution V)} {k : CollectorKind}

theorem rel_cons_same {c c' : Contribution V} (h : c.Same c') (bag : Multiset (Contribution V)) :
    Multiset.Rel Contribution.Same (c' ::ₘ bag) (c ::ₘ bag) :=
  .cons (Contribution.same_equivalence.symm h) (Bag.rel_refl Contribution.same_equivalence bag)

theorem Reflects.congr (h : a.Reflects bag) (hsame : Multiset.Rel Contribution.Same bag bag') :
    a.Reflects bag' := by
  cases a with
  | count n => exact Eq.trans h (Multiset.card_eq_card_of_rel hsame)
  | sum range total => exact Eq.trans h (wholeSum_congr hsame)
  | sumDecimal total => trivial
  | average total n => exact Eq.trans h (Multiset.card_eq_card_of_rel hsame)
  | min tally | max tally | countDistinct tally | toSet tally =>
      exact Tally.Holds.congr h (valuesOf_congr hsame)
  | toList values => exact SortedList.Holds.congr h (valuesOf_congr hsame)

omit [Std.TransOrd V] in
theorem Exact.congr (h : a.Exact bag) (hsame : Multiset.Rel Contribution.Same bag bag') :
    a.Exact bag' := by
  cases a with
  | sumDecimal total => exact Eq.trans h (numberSum_congr hsame)
  | average total n => exact Eq.trans h (numberSum_congr hsame)
  | _ => trivial

omit [Cell V] [Std.TransOrd V] in
theorem exact_new (k : CollectorKind) : (new k : Accumulator V).Exact 0 := by
  cases k with
  | sumDecimal => exact Decimal.toRat_zero
  | average => exact Decimal.toRat_zero
  | _ => trivial

omit [Cell V] [Std.TransOrd V] in
theorem addDecimal_exact {total d : Decimal} {q : Rat} (htotal : total.toRat = q)
    (h : Decimal.Represents (d.toRat + q)) :
    ∃ total', addDecimal total d = .ok total' ∧ total'.toRat = d.toRat + q := by
  rw [← htotal, add_comm] at h ⊢
  obtain ⟨total', hadd, hexact⟩ := Decimal.add?_exact h
  exact ⟨total', by rw [addDecimal, hadd], hexact⟩

omit [Cell V] [Std.TransOrd V] in
theorem subtractDecimal_exact {total d : Decimal} {q : Rat} (htotal : total.toRat = d.toRat + q)
    (h : Decimal.Represents q) :
    ∃ total', subtractDecimal total d = .ok total' ∧ total'.toRat = q := by
  have hq : total.toRat - d.toRat = q := by rw [htotal, add_sub_cancel_left]
  rw [← hq] at h ⊢
  obtain ⟨total', hsub, hexact⟩ := Decimal.sub?_exact h
  exact ⟨total', by rw [subtractDecimal, hsub], hexact⟩

omit [Cell V] [Std.TransOrd V] in
theorem inRange_contains {range : IntRange} {n : Int} (step : Overflow) (h : range.Contains n) :
    (inRange range step n : Except Fault (Accumulator V)) = .ok (sum range n) := by
  rw [inRange, if_pos h]

/-- An accumulator takes a contribution if the sum it keeps stays a number of its type, and then
that sum is exact. -/
theorem accumulate_keeps (hr : a.Reflects bag) (he : a.Exact bag) (hc : c.Fits a.kind)
    (hk : a.kind.Keeps (c ::ₘ bag)) : ∃ a', a.accumulate c = .ok a' ∧ a'.Exact (c ::ₘ bag) := by
  cases a with
  | sum range total =>
      cases c with
      | whole n =>
          have hsum : total + n = wholeSum (Contribution.whole n ::ₘ bag) := by
            rw [wholeSum_cons, add_comm]
            exact congrArg _ hr
          exact ⟨sum range (total + n), inRange_contains .add (hsum ▸ hk), trivial⟩
      | _ => cases hc
  | sumDecimal total =>
      cases c with
      | decimal d =>
          have hk : Decimal.Represents (numberSum (Contribution.decimal d ::ₘ bag)) := hk
          rw [numberSum_cons] at hk
          obtain ⟨total', htotal, hexact⟩ := addDecimal_exact he hk
          refine ⟨sumDecimal total', Outcome.bind_eq_ok.mpr ⟨total', htotal, rfl⟩, ?_⟩
          exact hexact.trans (numberSum_cons (c := .decimal d)).symm
      | _ => cases hc
  | average total n =>
      cases c with
      | decimal d =>
          have hk : Decimal.Represents (numberSum (Contribution.decimal d ::ₘ bag)) := hk
          rw [numberSum_cons] at hk
          obtain ⟨total', htotal, hexact⟩ := addDecimal_exact he hk
          refine ⟨average total' (n + 1), Outcome.bind_eq_ok.mpr ⟨total', htotal, rfl⟩, ?_⟩
          exact hexact.trans (numberSum_cons (c := .decimal d)).symm
      | _ => cases hc
  | _ => cases c <;> first | exact False.elim hc | exact ⟨_, rfl, trivial⟩

/-- What was accumulated is taken back if the sum that is left is a number of its type, and then
that sum is exact. -/
theorem retract_keeps (hr : a.Reflects (c ::ₘ bag)) (he : a.Exact (c ::ₘ bag))
    (hc : c.Fits a.kind) (hk : a.kind.Keeps bag) :
    ∃ a', a.retract c = .ok a' ∧ a'.Exact bag := by
  cases a with
  | sum range total =>
      cases c with
      | whole n =>
          have hsum : total - n = wholeSum bag := by
            have hr : total = wholeSum (Contribution.whole n ::ₘ bag) := hr
            rw [hr, wholeSum_cons]
            exact add_sub_cancel_left _ _
          exact ⟨sum range (total - n), inRange_contains .subtract (hsum ▸ hk), trivial⟩
      | _ => cases hc
  | sumDecimal total =>
      cases c with
      | decimal d =>
          have htotal : total.toRat = d.toRat + numberSum bag := Eq.trans he numberSum_cons
          obtain ⟨total', htotal, hexact⟩ := subtractDecimal_exact htotal hk
          exact ⟨sumDecimal total', Outcome.bind_eq_ok.mpr ⟨total', htotal, rfl⟩, hexact⟩
      | _ => cases hc
  | average total n =>
      cases c with
      | decimal d =>
          have htotal : total.toRat = d.toRat + numberSum bag := Eq.trans he numberSum_cons
          obtain ⟨total', htotal, hexact⟩ := subtractDecimal_exact htotal hk
          exact ⟨average total' (n - 1), Outcome.bind_eq_ok.mpr ⟨total', htotal, rfl⟩, hexact⟩
      | _ => cases hc
  | _ => cases c <;> first | exact False.elim hc | exact ⟨_, rfl, trivial⟩

/-- An accumulator that reflects the contributions before a call reflects those after it. -/
theorem call_reflects {u : CollectorCall V} (hu : u.Leaves bag bag') (hr : a.Reflects bag)
    (h : a.call u = .ok a') : a'.kind = a.kind ∧ a'.Reflects bag' := by
  cases hu with
  | accumulate c _ =>
      obtain ⟨hkind, hr'⟩ := accumulate_reflects h
      exact ⟨hkind, hr' _ hr⟩
  | retract hc _ =>
      obtain ⟨hkind, hr'⟩ := retract_reflects h
      exact ⟨hkind, hr' _ (hr.congr (rel_cons_same hc _))⟩
  | reset _ =>
      obtain rfl := Except.ok.inj h
      rw [reset_eq_new]
      exact ⟨kind_new a.kind, reflects_new a.kind⟩

/-- A call does not fail if the sum it leaves is a number of its type, and then that is exact. -/
theorem call_keeps {u : CollectorCall V} (hu : u.Leaves bag bag') (hr : a.Reflects bag)
    (he : a.Exact bag) (hfits : u.Fits a.kind) (hk : a.kind.Keeps bag') :
    ∃ a', a.call u = .ok a' ∧ a'.Exact bag' := by
  cases hu with
  | accumulate c _ => exact accumulate_keeps hr he hfits hk
  | retract hc _ =>
      have hsame := rel_cons_same hc bag'
      exact retract_keeps (hr.congr hsame) (he.congr hsame) hfits hk
  | reset _ =>
      refine ⟨a.reset, rfl, ?_⟩
      rw [reset_eq_new]
      exact exact_new a.kind

end Steps

section Runs

variable [Std.TransOrd V] {a : Accumulator V} {calls : List (CollectorCall V)}
  {bag : Multiset (Contribution V)} {k : CollectorKind}

omit [Std.TransOrd V] in
theorem after_concat {u : CollectorCall V} :
    after k (calls ++ [u]) = .ok a ↔ ∃ b, after k calls = .ok b ∧ b.call u = .ok a := by
  unfold after
  rw [List.foldlM_append, Outcome.bind_eq_ok]
  simp only [List.foldlM_cons, List.foldlM_nil, bind_pure]

/-- An accumulator reflects what remains of its calls. -/
theorem after_reflects (h : Remains calls bag) (ha : after k calls = .ok a) :
    a.kind = k ∧ a.Reflects bag := by
  induction h generalizing a with
  | nil =>
      obtain rfl := Except.ok.inj ha
      exact ⟨kind_new k, reflects_new k⟩
  | concat _ hu ih =>
      obtain ⟨b, hb, hab⟩ := after_concat.mp ha
      obtain ⟨rfl, hr⟩ := ih hb
      exact call_reflects hu hr hab

/-- If the sums are numbers of their type at all times, no call fails and the sum kept is exact. -/
theorem after_keeps (h : Remains calls bag) (hfits : ∀ u ∈ calls, u.Fits k)
    (hk : k.KeepsThroughout calls) : ∃ a, after k calls = .ok a ∧ a.Exact bag := by
  have hlast := hk.last h
  induction h with
  | nil => exact ⟨new k, rfl, exact_new k⟩
  | concat h hu ih =>
      obtain ⟨hcalls, hfit⟩ := fits_of_concat hfits
      obtain ⟨b, hb, he⟩ := ih hcalls hk.of_concat (hk.of_concat.last h)
      obtain ⟨rfl, hr⟩ := after_reflects h hb
      obtain ⟨a, ha, he⟩ := call_keeps hu hr he hfit hlast
      exact ⟨a, after_concat.mpr ⟨b, hb, ha⟩, he⟩

/-- What an accumulator shows is to be shown of what remains, decimals apart. -/
theorem finish_tells (hk : ¬k.SumsDecimals) (h : Remains calls bag) (ha : after k calls = .ok a) :
    Shows k bag a.finish := by
  obtain ⟨rfl, hr⟩ := after_reflects h ha
  exact finish_shows hr (exact_of_not_sums hk bag) (steady_of_ne (mt Or.inr hk) bag)

/-- A collector without a sum of decimals shows a function of what remains: its calls fail only
where a sum leaves its range, what it shows is what is to be shown of what remains, and so it is
what a new one shows that is given the same contributions in any order. Reset, it is as new. -/
theorem finish_of_remaining (k : CollectorKind) (hk : ¬k.SumsDecimals)
    (calls : List (CollectorCall V)) (bag : Multiset (Contribution V)) (h : Remains calls bag)
    (hfits : ∀ u ∈ calls, u.Fits k) :
    (k.KeepsThroughout calls → ∃ a, after k calls = .ok a) ∧
    ∀ a, after k calls = .ok a →
      Tells k bag a.finish ∧ a.reset = new k ∧
      ∀ cs : List (Contribution V), Multiset.Rel Contribution.Same (cs : Multiset _) bag →
        (k.KeepsThroughout (feed cs) → ∃ b, after k (feed cs) = .ok b) ∧
        ∀ b, after k (feed cs) = .ok b → b.finish.Same a.finish := by
  refine ⟨fun hkeeps => ?_, fun a ha => ⟨?_, ?_, fun cs hcs => ⟨fun hkeeps => ?_, fun b hb => ?_⟩⟩⟩
  · obtain ⟨a, ha, -⟩ := after_keeps h hfits hkeeps
    exact ⟨a, ha⟩
  · exact (finish_tells hk h ha).tells
  · rw [reset_eq_new, (after_reflects h ha).1]
  · obtain ⟨b, hb, -⟩ := after_keeps (feed_remains cs) (feed_fits (h.fits hfits) hcs) hkeeps
    exact ⟨b, hb⟩
  · exact (finish_tells hk (feed_remains cs) hb).unique (finish_tells hk h ha) (mt Or.inr hk) hcs

/-- A coin is gathered and forgotten, two more are gathered, and one equal to the first of them is
taken back. -/
def coinCalls : List (CollectorCall Coin) :=
  [.accumulate (.value ⟨5, true⟩), .reset, .accumulate (.value ⟨2, true⟩),
    .accumulate (.value ⟨1, true⟩), .retract (.value ⟨2, false⟩)]

theorem coinCalls_remains : Remains coinCalls {.value ⟨1, true⟩} := by
  have hreset := ((Remains.nil (V := Coin)).concat (.accumulate (.value ⟨5, true⟩) 0)).concat
    (.reset _)
  have hgathered := (hreset.concat (.accumulate (.value ⟨2, true⟩) 0)).concat
    (.accumulate (.value ⟨1, true⟩) _)
  rw [Multiset.cons_swap] at hgathered
  have hsame : (Contribution.value (⟨2, false⟩ : Coin)).Same (.value ⟨2, true⟩) := by
    change Cell.same _ _ = true
    decide
  exact hgathered.concat (.retract hsame _)

theorem finish_of_remaining_coins : ∃ a b : Accumulator Coin,
    after .toList coinCalls = .ok a ∧ Tells .toList {.value ⟨1, true⟩} a.finish ∧
      after .toList (feed [.value ⟨1, false⟩]) = .ok b ∧ b.finish.Same a.finish := by
  have hkind : ¬CollectorKind.toList.SumsDecimals := by
    rintro (h | h) <;> cases h
  have hfits : ∀ u ∈ coinCalls, u.Fits .toList := by
    simp [coinCalls, CollectorCall.Fits, Contribution.Fits]
  obtain ⟨hruns, hshown⟩ :=
    finish_of_remaining .toList hkind coinCalls {.value ⟨1, true⟩} coinCalls_remains hfits
  obtain ⟨a, ha⟩ := hruns fun _ _ _ _ => trivial
  obtain ⟨htells, -, hfresh⟩ := hshown a ha
  have hsame : (Contribution.value (⟨1, false⟩ : Coin)).Same (.value ⟨1, true⟩) := by
    change Cell.same _ _ = true
    decide
  obtain ⟨hfeeds, hequal⟩ := hfresh [.value ⟨1, false⟩] (.cons hsame .zero)
  obtain ⟨b, hb⟩ := hfeeds fun _ _ _ _ => trivial
  exact ⟨a, b, ha, htells, hb, hequal b hb⟩

/-- Sums of decimals are exact as long as all of them are decimals, and no longer: exactly then no
call fails and the running sum is the sum of what remains after each. What is shown is then that sum
or its mean, and the running sum of a new accumulator that is given what remains is the same if its
own sums are decimals. -/
theorem sum_of_remaining (k : CollectorKind) (hk : k.SumsDecimals) (calls : List (CollectorCall V))
    (bag : Multiset (Contribution V)) (h : Remains calls bag) (hfits : ∀ u ∈ calls, u.Fits k) :
    (k.KeepsThroughout calls ↔ ∀ before, before <+: calls → ∀ remaining,
      Remains before remaining → ∃ a, after k before = .ok a ∧ a.Exact remaining) ∧
    (k.KeepsThroughout calls → ∃ a, after k calls = .ok a ∧ a.Exact bag ∧ Tells k bag a.finish ∧
      ∀ cs : List (Contribution V), Multiset.Rel Contribution.Same (cs : Multiset _) bag →
        k.KeepsThroughout (feed cs) → ∃ b, after k (feed cs) = .ok b ∧ b.Exact bag) := by
  have hbefores : ∀ before, before <+: calls → ∀ u ∈ before, u.Fits k :=
    fun before hbefore u hu => hfits u (hbefore.subset hu)
  refine ⟨⟨fun hkeeps before hbefore remaining hremains => ?_,
    fun hexact before hbefore remaining hremains => ?_⟩, fun hkeeps => ?_⟩
  · exact after_keeps hremains (hbefores before hbefore) fun b hb => hkeeps b (hb.trans hbefore)
  · obtain ⟨a, ha, he⟩ := hexact before hbefore remaining hremains
    obtain ⟨rfl, -⟩ := after_reflects hremains ha
    cases a with
    | sumDecimal total => exact ⟨total, he⟩
    | average total n => exact ⟨total, he⟩
    | _ => rcases hk with hk | hk <;> cases hk
  · obtain ⟨a, ha, he⟩ := after_keeps h hfits hkeeps
    refine ⟨a, ha, he, ?_, fun cs hcs hfeed => ?_⟩
    · obtain ⟨rfl, hr⟩ := after_reflects h ha
      cases a with
      | sumDecimal total => exact ⟨total, he, rfl⟩
      | average total n =>
          obtain rfl : n = bag.card := hr
          exact ⟨total, he, rfl⟩
      | _ => rcases hk with hk | hk <;> cases hk
    · obtain ⟨b, hb, hexact⟩ :=
        after_keeps (feed_remains cs) (feed_fits (h.fits hfits) hcs) hfeed
      exact ⟨b, hb, hexact.congr hcs⟩

/-- A number of tenths. -/
def tenths (n : Nat) (h : n < 79228162514264337593543950336) : Decimal := ⟨false, n, 1, h, by decide⟩

def tenthsCalls : List (CollectorCall Coin) :=
  [.accumulate (.decimal (tenths 15 (by decide))), .accumulate (.decimal (tenths 22 (by decide))),
    .retract (.decimal (tenths 15 (by decide)))]

theorem tenths_keeps {n : Nat} (h : n < 79228162514264337593543950336)
    {bag : Multiset (Contribution Coin)} (hsum : numberSum bag = n / 10) :
    CollectorKind.average.Keeps bag := by
  refine ⟨tenths n h, ?_⟩
  rw [hsum]
  simp [tenths, Decimal.toRat, Decimal.coefficient]

theorem sum_of_remaining_tenths : ∃ a b : Accumulator Coin,
    after .average tenthsCalls = .ok a ∧ a.Exact {.decimal (tenths 22 (by decide))} ∧
      after .average (feed [.decimal (tenths 22 (by decide))]) = .ok b ∧
      b.Exact {.decimal (tenths 22 (by decide))} := by
  have hnumber : ∀ n h, (Contribution.decimal (tenths n h) : Contribution Coin).number = n / 10 := by
    intro n h
    simp [Contribution.number, tenths, Decimal.toRat, Decimal.coefficient]
  have hnil := CollectorKind.keepsThroughout_nil (V := Coin) (k := .average)
    (tenths_keeps (n := 0) (by decide) (by simp [numberSum]))
  have hfirst := Remains.nil.concat
    (.accumulate (.decimal (tenths 15 (by decide)) : Contribution Coin) 0)
  have hsecond := hfirst.concat (.accumulate (.decimal (tenths 22 (by decide))) _)
  rw [Multiset.cons_swap] at hsecond
  have hsame : (Contribution.decimal (tenths 15 (by decide)) : Contribution Coin).Same
      (.decimal (tenths 15 (by decide))) := Contribution.same_equivalence.refl _
  have hthird := hsecond.concat (.retract hsame _)
  have hkeeps : CollectorKind.average.KeepsThroughout tenthsCalls :=
    ((hnil.concat hfirst (tenths_keeps (n := 15) (by decide) (by simp [numberSum, hnumber]))).concat
      hsecond (tenths_keeps (n := 37) (by decide) (by norm_num [numberSum, hnumber]))).concat
      hthird (tenths_keeps (n := 22) (by decide) (by simp [numberSum, hnumber]))
  have hfits : ∀ u ∈ tenthsCalls, u.Fits .average := by
    simp [tenthsCalls, CollectorCall.Fits, Contribution.Fits]
  obtain ⟨-, hexact⟩ := sum_of_remaining .average (Or.inr rfl) tenthsCalls _ hthird hfits
  obtain ⟨a, ha, he, -, hfresh⟩ := hexact hkeeps
  obtain ⟨b, hb, heb⟩ := hfresh [.decimal (tenths 22 (by decide))]
    (Bag.rel_refl Contribution.same_equivalence _)
    (hnil.concat (Remains.nil.concat (.accumulate _ 0))
      (tenths_keeps (n := 22) (by decide) (by simp [numberSum, hnumber])))
  exact ⟨a, b, ha, he, hb, heb⟩

/-- A tenth is lost beside the greatest decimal, and is not there when that is taken back. -/
example : (after .sumDecimal [
      .accumulate (.decimal ⟨false, 79228162514264337593543950335, 0, by decide, by decide⟩),
      .accumulate (.decimal (tenths 1 (by decide))),
      .retract (.decimal ⟨false, 79228162514264337593543950335, 0, by decide, by decide⟩)] :
    Except Fault (Accumulator Coin)) = .ok (.sumDecimal .zero) := by
  rfl

end Runs

end Accumulator

end ConstraintScoring
