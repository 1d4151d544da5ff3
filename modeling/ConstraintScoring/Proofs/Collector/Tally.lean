import ConstraintScoring.Collector.Tally
import ConstraintScoring.Proofs.Bag
import ConstraintScoring.Proofs.Same
import Mathlib.Data.List.TakeWhile

/-!
# What tallies and sorted lists hold

A tally holds a multiset of values if it lists them in strictly ascending order, each as often as
the multiset has values that are the same. A sorted list holds the values themselves, up to values
that are the same.
-/

namespace ConstraintScoring

-- The sum of no numbers is the zero of the core library, whatever else is imported.
attribute [local instance (2000)] Zero.ofOfNat0

variable {V : Type} [Cell V]

/-- The values come in strictly ascending order. -/
def Ascending (vs : List V) : Prop := vs.Pairwise fun a b => compare a b = .lt

/-- The same values occur in both, however often. -/
def Covers (vs : List V) (bag : Multiset V) : Prop :=
  ∀ w, (∃ v ∈ vs, Cell.same v w = true) ↔ ∃ v ∈ bag, Cell.same v w = true

theorem same_equivalence [Std.TransOrd V] :
    Equivalence fun a b : V => Cell.same a b = true :=
  ⟨Cell.same_refl, Cell.same_symm, Cell.same_trans⟩

theorem same_of_not_lt [Std.TransOrd V] {a b : V} (hab : compare a b ≠ .lt)
    (hba : compare b a ≠ .lt) : Cell.same a b = true := by
  rw [Cell.same_iff]
  cases h : compare a b with
  | lt => exact absurd h hab
  | eq => rfl
  | gt => exact absurd (Std.OrientedCmp.lt_of_gt h) hba

theorem covers_congr [Std.TransOrd V] {vs : List V} {bag bag' : Multiset V} (h : Covers vs bag)
    (hrel : Multiset.Rel (fun a b => Cell.same a b = true) bag bag') : Covers vs bag' := by
  refine fun w => (h w).trans ⟨fun ⟨v, hv, hw⟩ => ?_, fun ⟨v, hv, hw⟩ => ?_⟩
  · obtain ⟨u, hu, hvu⟩ := Multiset.exists_mem_of_rel_of_mem hrel hv
    exact ⟨u, hu, Cell.same_trans (Cell.same_symm hvu) hw⟩
  · obtain ⟨u, hu, hvu⟩ := Multiset.exists_mem_of_rel_of_mem (Bag.rel_symm same_equivalence hrel) hv
    exact ⟨u, hu, Cell.same_trans (Cell.same_symm hvu) hw⟩

/-- Ascending lists that cover each other are the same value by value. -/
theorem ascending_unique [Std.TransOrd V] {as bs : List V} (ha : Ascending as) (hb : Ascending bs)
    (h : ∀ w, (∃ v ∈ as, Cell.same v w = true) ↔ ∃ v ∈ bs, Cell.same v w = true) :
    List.Forall₂ (fun a b => Cell.same a b = true) as bs := by
  induction as generalizing bs with
  | nil =>
      cases bs with
      | nil => exact .nil
      | cons b bs => simpa using (h b).mpr ⟨b, by simp, Cell.same_refl b⟩
  | cons a as ih =>
      obtain ⟨haas, has⟩ := List.pairwise_cons.mp ha
      cases bs with
      | nil => simpa using (h a).mp ⟨a, by simp, Cell.same_refl a⟩
      | cons b bs =>
          obtain ⟨hbbs, hbs⟩ := List.pairwise_cons.mp hb
          have hle : ∀ {x y : V} {xs : List V}, (∀ z ∈ xs, compare x z = .lt) →
              (∃ z ∈ x :: xs, Cell.same z y = true) → compare y x ≠ .lt := by
            rintro x y xs hx ⟨z, hz, hzy⟩ hlt
            rw [← Cell.compare_congr hzy (Cell.same_refl x)] at hlt
            rcases List.mem_cons.mp hz with rfl | hz
            · rw [Cell.compare_self] at hlt
              cases hlt
            · rw [Std.OrientedCmp.gt_of_lt (hx z hz)] at hlt
              cases hlt
          have hab : Cell.same a b = true :=
            same_of_not_lt (hle hbbs ((h a).mp ⟨a, by simp, Cell.same_refl a⟩))
              (hle haas ((h b).mpr ⟨b, by simp, Cell.same_refl b⟩))
          refine .cons hab (ih has hbs fun w => ?_)
          have hself : Cell.same a w = true ↔ Cell.same b w = true :=
            ⟨Cell.same_trans (Cell.same_symm hab), Cell.same_trans hab⟩
          have hnot : ∀ {x : V} {xs : List V}, (∀ z ∈ xs, compare x z = .lt) →
              Cell.same x w = true → ¬∃ v ∈ xs, Cell.same v w = true := by
            rintro x xs hx hxw ⟨v, hv, hvw⟩
            have hlt := hx v hv
            rw [Cell.compare_congr hxw hvw, Cell.compare_self] at hlt
            cases hlt
          have hw := h w
          simp only [List.mem_cons, or_and_right, exists_or, exists_eq_left] at hw
          by_cases haw : Cell.same a w = true
          · exact iff_of_false (hnot haas haw) (hnot hbbs (hself.mp haw))
          · have hbw : ¬Cell.same b w = true := fun hbw => haw (hself.mpr hbw)
            simpa [haw, hbw] using hw

namespace Tally

/-- How often values the same as `w` were counted. -/
def countIn (w : V) (es : List (V × Nat)) : Nat :=
  ((es.filter fun e => Cell.same e.1 w).map (·.2)).sum

theorem countIn_cons (w : V) (e : V × Nat) (es : List (V × Nat)) :
    countIn w (e :: es) = (if Cell.same e.1 w then e.2 else 0) + countIn w es := by
  unfold countIn
  by_cases h : Cell.same e.1 w <;> simp [h]

structure Holds (t : Tally V) (bag : Multiset V) : Prop where
  ascending : Ascending t.values
  positive : ∀ e ∈ t.counts, 0 < e.2
  count : ∀ w, countIn w t.counts = bag.countP fun v => Cell.same v w

theorem holds_empty : (empty : Tally V).Holds 0 :=
  ⟨List.Pairwise.nil, by simp [empty], fun w => by simp [countIn, empty]⟩

theorem countIn_pos {w : V} {es : List (V × Nat)} (hp : ∀ e ∈ es, 0 < e.2) :
    0 < countIn w es ↔ ∃ v ∈ es.map (·.1), Cell.same v w = true := by
  induction es with
  | nil => simp [countIn]
  | cons e es ih =>
      have he := hp e (by simp)
      have ih := ih fun e he => hp e (List.mem_cons_of_mem _ he)
      rw [countIn_cons]
      by_cases h : Cell.same e.1 w
      · simp [h, Nat.lt_add_right _ he]
      · simpa [h] using ih

theorem Holds.covers {t : Tally V} {bag : Multiset V} (h : t.Holds bag) : Covers t.values bag := by
  intro w
  have hpos := countIn_pos (w := w) h.positive
  rw [h.count, Multiset.countP_pos] at hpos
  exact hpos.symm

variable [Std.TransOrd V] {v : V}

theorem countIn_insertIn (w : V) (es : List (V × Nat)) :
    countIn w (insertIn v es) = countIn w es + if Cell.same v w then 1 else 0 := by
  induction es with
  | nil => rw [insertIn, countIn_cons, Nat.add_comm]
  | cons e es ih =>
      unfold insertIn
      split
      · rw [countIn_cons]
        exact Nat.add_comm _ _
      · rename_i heq
        have hsame : Cell.same e.1 w = Cell.same v w := by
          rw [Bool.eq_iff_iff]
          have hve := Cell.same_iff.mpr heq
          exact ⟨Cell.same_trans hve, Cell.same_trans (Cell.same_symm hve)⟩
        rw [countIn_cons, countIn_cons, hsame]
        split <;> omega
      · rw [countIn_cons, countIn_cons, ih, Nat.add_assoc]

omit [Std.TransOrd V] in
theorem mem_insertIn {es : List (V × Nat)} {e : V × Nat} (h : e ∈ insertIn v es) :
    0 < e.2 ∧ e.1 = v ∨ ∃ e' ∈ es, e'.1 = e.1 ∧ (0 < e'.2 → 0 < e.2) := by
  induction es with
  | nil =>
      rw [insertIn, List.mem_singleton] at h
      exact Or.inl (by simp [h])
  | cons a es ih =>
      unfold insertIn at h
      split at h
      · rcases List.mem_cons.mp h with rfl | h
        · exact Or.inl ⟨Nat.one_pos, rfl⟩
        · exact Or.inr ⟨e, h, rfl, id⟩
      · rcases List.mem_cons.mp h with rfl | h
        · exact Or.inr ⟨a, by simp, rfl, fun _ => Nat.succ_pos _⟩
        · exact Or.inr ⟨e, by simp [h], rfl, id⟩
      · rcases List.mem_cons.mp h with rfl | h
        · exact Or.inr ⟨e, by simp, rfl, id⟩
        · exact (ih h).imp id fun ⟨e', he', h'⟩ => ⟨e', by simp [he'], h'⟩

theorem ascending_insertIn {es : List (V × Nat)} (h : Ascending (es.map (·.1))) :
    Ascending ((insertIn v es).map (·.1)) := by
  induction es with
  | nil => simp [insertIn, Ascending]
  | cons e es ih =>
      obtain ⟨hhead, htail⟩ := List.pairwise_cons.mp h
      unfold insertIn
      split
      · rename_i hlt
        refine List.pairwise_cons.mpr ⟨fun w hw => ?_, h⟩
        rcases List.mem_cons.mp hw with rfl | hw
        · exact hlt
        · exact Std.TransCmp.lt_trans hlt (hhead w hw)
      · exact h
      · rename_i hgt
        refine List.pairwise_cons.mpr ⟨fun w hw => ?_, ih htail⟩
        obtain ⟨e', he', rfl⟩ := List.mem_map.mp hw
        rcases mem_insertIn he' with ⟨-, heq⟩ | ⟨a, ha, heq, -⟩
        · rw [heq]
          exact Std.OrientedCmp.lt_of_gt hgt
        · exact heq ▸ hhead a.1 (List.mem_map_of_mem ha)

theorem Holds.insert {t : Tally V} {bag : Multiset V} (h : t.Holds bag) (v : V) :
    (t.insert v).Holds (v ::ₘ bag) := by
  refine ⟨ascending_insertIn h.ascending, fun e he => ?_, fun w => ?_⟩
  · rcases mem_insertIn he with ⟨hpos, -⟩ | ⟨e', he', -, hpos⟩
    · exact hpos
    · exact hpos (h.positive e' he')
  · rw [Tally.insert, countIn_insertIn, h.count, Multiset.countP_cons]

theorem countIn_removeIn (w : V) {es : List (V × Nat)} (hp : ∀ e ∈ es, 0 < e.2)
    (hv : ∃ u ∈ es.map (·.1), Cell.same u v = true) :
    countIn w (removeIn v es) + (if Cell.same v w then 1 else 0) = countIn w es := by
  induction es with
  | nil => simp at hv
  | cons e es ih =>
      have he := hp e (by simp)
      rw [removeIn, countIn_cons]
      by_cases heq : (compare v e.1 == .eq) = true
      · have hve : Cell.same v e.1 = true := heq
        have hsame : Cell.same e.1 w = Cell.same v w := by
          rw [Bool.eq_iff_iff]
          exact ⟨Cell.same_trans hve, Cell.same_trans (Cell.same_symm hve)⟩
        rw [if_pos heq, hsame]
        by_cases hone : e.2 ≤ 1
        · rw [if_pos hone]
          split <;> omega
        · rw [if_neg hone, countIn_cons, hsame]
          split <;> omega
      · rw [if_neg heq, countIn_cons]
        have hv : ∃ u ∈ es.map (·.1), Cell.same u v = true := by
          obtain ⟨u, hu, huv⟩ := hv
          rcases List.mem_cons.mp hu with rfl | hu
          · exact absurd (Cell.same_symm huv) heq
          · exact ⟨u, hu, huv⟩
        have := ih (fun e he => hp e (List.mem_cons_of_mem _ he)) hv
        omega

omit [Std.TransOrd V] in
theorem removeIn_keys (es : List (V × Nat)) :
    ((removeIn v es).map (·.1)).Sublist (es.map (·.1)) := by
  induction es with
  | nil => exact .slnil
  | cons e es ih =>
      unfold removeIn
      split
      · split
        · exact List.sublist_cons_self ..
        · exact List.Sublist.refl _
      · exact ih.cons_cons e.1

omit [Std.TransOrd V] in
theorem removeIn_positive {es : List (V × Nat)} (hp : ∀ e ∈ es, 0 < e.2) :
    ∀ e ∈ removeIn v es, 0 < e.2 := by
  induction es with
  | nil => exact hp
  | cons a es ih =>
      have htail : ∀ e ∈ es, 0 < e.2 := fun e he => hp e (List.mem_cons_of_mem _ he)
      unfold removeIn
      split
      · split
        · exact htail
        · rename_i hone
          intro e he
          rcases List.mem_cons.mp he with rfl | he
          · dsimp only
            omega
          · exact htail e he
      · intro e he
        rcases List.mem_cons.mp he with rfl | he
        · exact hp e (by simp)
        · exact ih htail e he

theorem Holds.remove {t : Tally V} {bag : Multiset V} (h : t.Holds (v ::ₘ bag)) :
    (t.remove v).Holds bag := by
  refine ⟨h.ascending.sublist (removeIn_keys _), removeIn_positive h.positive, fun w => ?_⟩
  have hv : ∃ u ∈ t.counts.map (·.1), Cell.same u v = true :=
    (h.covers v).mpr ⟨v, by simp, Cell.same_refl v⟩
  have hcount := countIn_removeIn w h.positive hv
  rw [h.count, Multiset.countP_cons] at hcount
  exact Nat.add_right_cancel hcount

end Tally

namespace SortedList

variable [Std.TransOrd V]

structure Holds (s : SortedList V) (bag : Multiset V) : Prop where
  ascending : s.values.Pairwise fun a b => compare a b ≠ .gt
  values : Multiset.Rel (fun a b => Cell.same a b = true) s.values bag

omit [Std.TransOrd V] in
theorem holds_empty : (empty : SortedList V).Holds 0 := ⟨List.Pairwise.nil, .zero⟩

omit [Cell V] [Std.TransOrd V] in
theorem drop_takeWhile (p : V → Bool) (vs : List V) :
    vs.drop (vs.takeWhile p).length = vs.dropWhile p := by
  induction vs with
  | nil => rfl
  | cons a vs ih => by_cases h : p a <;> simp [h, ih]

variable {s : SortedList V} {bag : Multiset V} {v : V}

/-- What comes after the values up to `v` is greater than `v`. -/
theorem lt_of_mem_dropWhile {vs : List V} (h : vs.Pairwise fun a b => compare a b ≠ .gt) {w : V}
    (hw : w ∈ vs.dropWhile fun u => compare u v != .gt) : compare v w = .lt := by
  induction vs with
  | nil => cases hw
  | cons a vs ih =>
      obtain ⟨hhead, htail⟩ := List.pairwise_cons.mp h
      by_cases ha : compare a v = .gt
      · have hva : compare v a = .lt := Std.OrientedCmp.lt_of_gt ha
        rw [List.dropWhile_cons_of_neg (by simp [ha])] at hw
        rcases List.mem_cons.mp hw with rfl | hw
        · exact hva
        · exact Std.TransCmp.lt_of_lt_of_isLE hva (Ordering.isLE_iff_ne_gt.mpr (hhead w hw))
      · rw [List.dropWhile_cons_of_pos (by simp [ha])] at hw
        exact ih htail hw

omit [Std.TransOrd V] in
theorem mem_takeWhile_le {vs : List V} {w : V}
    (hw : w ∈ vs.takeWhile fun u => compare u v != .gt) : compare w v ≠ .gt := by
  simpa using List.mem_takeWhile_imp hw

theorem Holds.insert (h : s.Holds bag) (v : V) : (s.insert v).Holds (v ::ₘ bag) := by
  have hsplit := List.takeWhile_append_dropWhile (p := fun w => compare w v != .gt) (l := s.values)
  have hsorted := h.ascending
  have hvalues := h.values
  rw [← hsplit] at hsorted hvalues
  obtain ⟨hsmall, hrest, hbetween⟩ := List.pairwise_append.mp hsorted
  have hgreater := fun w => lt_of_mem_dropWhile (v := v) (w := w) h.ascending
  unfold SortedList.insert
  simp only [drop_takeWhile]
  refine ⟨List.pairwise_append.mpr ⟨hsmall, List.pairwise_cons.mpr ⟨fun w hw => ?_, hrest⟩,
    fun w hw u hu => ?_⟩, ?_⟩
  · simp [hgreater w hw]
  · rcases List.mem_cons.mp hu with rfl | hu
    · exact mem_takeWhile_le hw
    · exact hbetween w hw u hu
  · rw [Multiset.coe_eq_coe.mpr List.perm_middle, ← Multiset.cons_coe]
    exact .cons (Cell.same_refl v) hvalues

theorem Holds.remove (h : s.Holds (v ::ₘ bag)) : (s.remove v).Holds bag := by
  have hsplit := List.takeWhile_append_dropWhile (p := fun w => compare w v != .gt) (l := s.values)
  have hgreater := fun w => lt_of_mem_dropWhile (v := v) (w := w) h.ascending
  obtain ⟨u, hu, hvu⟩ := Multiset.exists_mem_of_rel_of_mem
    (Bag.rel_symm same_equivalence h.values) (Multiset.mem_cons_self v bag)
  have hmem : u ∈ s.values.takeWhile fun w => compare w v != .gt := by
    have hu : u ∈ s.values := hu
    rw [← hsplit] at hu
    refine (List.mem_append.mp hu).resolve_right fun hu => ?_
    have hlt := hgreater u hu
    rw [Cell.same_iff.mp hvu] at hlt
    cases hlt
  obtain ⟨last, hlast⟩ : ∃ last, (s.values.takeWhile fun w => compare w v != .gt).getLast? =
      some last := Option.ne_none_iff_exists'.mp fun hnone => by
    rw [List.getLast?_eq_none_iff.mp hnone] at hmem
    cases hmem
  obtain ⟨init, hinit⟩ := List.getLast?_eq_some_iff.mp hlast
  have hsorted := h.ascending
  have hvalues := h.values
  rw [← hsplit, hinit] at hsorted hvalues
  rw [hinit] at hmem
  obtain ⟨hsmall, hrest, hbetween⟩ := List.pairwise_append.mp hsorted
  have hle : compare last v ≠ .gt := mem_takeWhile_le (by rw [hinit]; simp)
  have hsame : Cell.same last v = true := by
    refine same_of_not_lt (fun hlt => ?_) fun hlt => hle (Std.OrientedCmp.gt_of_lt hlt)
    rcases List.mem_append.mp hmem with hmem | hmem
    · refine (List.pairwise_append.mp hsmall).2.2 u hmem last (by simp) ?_
      rw [← Cell.compare_congr hvu (Cell.same_refl last)]
      exact Std.OrientedCmp.gt_of_lt hlt
    · rw [← List.mem_singleton.mp hmem, ← Cell.compare_congr hvu (Cell.same_refl v),
        Cell.compare_self] at hlt
      cases hlt
  unfold SortedList.remove
  simp only [hlast, drop_takeWhile]
  rw [if_pos (by simpa [Cell.same] using hsame), hinit, List.dropLast_concat]
  refine ⟨List.pairwise_append.mpr ⟨hsmall.sublist (List.sublist_append_left ..), hrest,
    fun w hw x hx => hbetween w (by simp [hw]) x hx⟩, ?_⟩
  refine Bag.rel_cancel same_equivalence (a := last) ?_ hsame
  rw [List.append_assoc, List.singleton_append, Multiset.coe_eq_coe.mpr List.perm_middle,
    ← Multiset.cons_coe] at hvalues
  exact hvalues

end SortedList

end ConstraintScoring
