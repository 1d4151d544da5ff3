import ConstraintScoring.Proofs.Table.Distinct

/-!
# Tables of tables

A table whose values are tables gives a value to each pair of keys. Its leaves are all these values,
and adding or dropping a pair adds or drops just its own leaf.
-/

namespace ConstraintScoring

namespace Table

variable {κ β : Type}

/-- All values, row by row. -/
def leaves (T : Table κ (Table κ β)) : List β := T.values.flatMap values

variable [BEq κ]

def at? (T : Table κ (Table κ β)) (k l : κ) : Option β := (T.get? k).bind (·.get? l)

structure AllDistinct (T : Table κ (Table κ β)) : Prop where
  distinct : T.Distinct
  rows : ∀ k U, T.get? k = some U → U.Distinct

theorem allDistinct_empty : (empty : Table κ (Table κ β)).AllDistinct :=
  ⟨distinct_empty, fun k U h => by simp at h⟩

variable {T : Table κ (Table κ β)} {k l : κ} {b : β}

theorem at?_eq_getD (T : Table κ (Table κ β)) (k l : κ) :
    T.at? k l = (T.getD k .empty).get? l := by
  unfold at? getD
  cases T.get? k <;> simp

theorem mem_leaves_of_at? (h : T.at? k l = some b) : b ∈ T.leaves := by
  obtain ⟨U, hU, hb⟩ := Option.bind_eq_some_iff.mp h
  exact List.mem_flatMap.mpr ⟨U, mem_values_of_get? hU, mem_values_of_get? hb⟩

theorem leaves_perm (T : Table κ (Table κ β)) (k : κ) :
    T.leaves.Perm ((T.getD k .empty).values ++ (T.erase k).leaves) := by
  have hperm := (T.values_perm k).flatMap_right values
  unfold leaves getD
  cases hk : T.get? k with
  | none => simpa [hk, values, empty] using hperm
  | some U => simpa [hk] using hperm

variable [LawfulBEq κ]

theorem AllDistinct.mem_leaves (h : T.AllDistinct) :
    b ∈ T.leaves ↔ ∃ k l, T.at? k l = some b := by
  constructor
  · intro hb
    obtain ⟨U, hU, hb⟩ := List.mem_flatMap.mp hb
    obtain ⟨k, hk⟩ := h.distinct.mem_values_iff.mp hU
    obtain ⟨l, hl⟩ := (h.rows k U hk).mem_values_iff.mp hb
    exact ⟨k, l, by simp [at?, hk, hl]⟩
  · rintro ⟨k, l, hkl⟩
    exact mem_leaves_of_at? hkl

omit [LawfulBEq κ] in
theorem AllDistinct.row (h : T.AllDistinct) (k : κ) : (T.getD k .empty).Distinct := by
  unfold getD
  cases hk : T.get? k with
  | none => exact distinct_empty
  | some U => exact h.rows k U hk

section Put

/-- Gives a value to a pair of keys. -/
def putAt (T : Table κ (Table κ β)) (k l : κ) (b : β) : Table κ (Table κ β) :=
  T.insert k ((T.getD k .empty).insert l b)

theorem at?_putAt (k k' l l' : κ) :
    (T.putAt k l b).at? k' l' = if k == k' ∧ l == l' then some b else T.at? k' l' := by
  rw [at?_eq_getD, at?_eq_getD]
  by_cases hk : k == k'
  · simp only [hk, true_and, putAt, getD, get?_insert, if_pos, Option.getD_some]
    rw [eq_of_beq hk]
  · simp [putAt, getD, get?_insert, hk]

theorem AllDistinct.putAt (h : T.AllDistinct) (k l : κ) (b : β) :
    (T.putAt k l b).AllDistinct := by
  refine ⟨h.distinct.insert _ _, fun k' U hU => ?_⟩
  rw [Table.putAt, get?_insert] at hU
  split at hU
  · obtain rfl := Option.some.inj hU
    exact (h.row k).insert l b
  · exact h.rows k' U hU

omit [LawfulBEq κ] in
theorem leaves_putAt (h : T.at? k l = none) : (T.putAt k l b).leaves.Perm (b :: T.leaves) := by
  rw [at?_eq_getD] at h
  have hput := (T.values_insert k ((T.getD k .empty).insert l b)).flatMap_right values
  refine hput.trans (List.Perm.trans ?_ ((T.leaves_perm k).symm.cons b))
  rw [List.flatMap_cons, values_insert_of_none b h, List.append_assoc]
  exact List.perm_middle

end Put

section Drop

/-- Takes the value of a pair of keys out. -/
def dropAt (T : Table κ (Table κ β)) (k l : κ) : Table κ (Table κ β) :=
  T.modify k (·.eraseSwap l)

theorem AllDistinct.at?_dropAt (h : T.AllDistinct) (k k' l l' : κ) :
    (T.dropAt k l).at? k' l' = if k == k' ∧ l == l' then none else T.at? k' l' := by
  unfold at? dropAt
  rw [get?_modify]
  cases hk' : T.get? k' with
  | none => simp
  | some U =>
      by_cases hk : k == k'
      · simp only [hk, true_and, if_pos, Option.map_some, Option.bind_some]
        exact (h.rows k' U hk').get?_eraseSwap l l'
      · simp [hk]

theorem AllDistinct.dropAt (h : T.AllDistinct) (k l : κ) : (T.dropAt k l).AllDistinct := by
  refine ⟨h.distinct.modify _ _, fun k' U hU => ?_⟩
  rw [Table.dropAt, get?_modify] at hU
  split at hU
  · obtain ⟨U', hU', rfl⟩ := Option.map_eq_some_iff.mp hU
    exact (h.rows k' U' hU').eraseSwap l
  · exact h.rows k' U hU

omit [LawfulBEq κ] in
theorem leaves_dropAt (h : T.at? k l = some b) : T.leaves.Perm (b :: (T.dropAt k l).leaves) := by
  obtain ⟨U, hU, hb⟩ := Option.bind_eq_some_iff.mp h
  have hdrop : (T.dropAt k l).leaves.Perm ((U.eraseSwap l).values ++ (T.erase k).leaves) := by
    have hperm := (T.values_insert k (U.eraseSwap l)).flatMap_right values
    simpa [dropAt, modify, hU, leaves] using hperm
  have hrow : U.values.Perm (b :: (U.eraseSwap l).values) :=
    (values_erase_of_some hb).trans ((U.values_eraseSwap l).symm.cons b)
  have hold := T.leaves_perm k
  rw [getD, hU, Option.getD_some] at hold
  exact hold.trans ((hrow.append_right _).trans (hdrop.symm.cons b))

end Drop

theorem AllDistinct.at?_erase (h : T.AllDistinct) (k k' l : κ) :
    (T.erase k).at? k' l = if k == k' then none else T.at? k' l := by
  unfold at?
  rw [h.distinct.get?_erase]
  split <;> rfl

theorem AllDistinct.erase (h : T.AllDistinct) (k : κ) : (T.erase k).AllDistinct := by
  refine ⟨h.distinct.erase k, fun k' U hU => ?_⟩
  rw [h.distinct.get?_erase] at hU
  split at hU
  · cases hU
  · exact h.rows k' U hU

/-- No two pairs of keys have the same leaf. -/
theorem AllDistinct.at?_inj (h : T.AllDistinct) (hn : T.leaves.Nodup) {k' l' : κ}
    (hb : T.at? k l = some b) (hb' : T.at? k' l' = some b) : k = k' ∧ l = l' := by
  by_contra hne
  have hperm := leaves_dropAt hb
  have hmem : b ∈ (T.dropAt k l).leaves := by
    refine mem_leaves_of_at? (k := k') (l := l') ?_
    rw [h.at?_dropAt, if_neg (by simpa using hne), hb']
  exact (List.nodup_cons.mp (hperm.nodup_iff.mp hn)).1 hmem

end Table

end ConstraintScoring
