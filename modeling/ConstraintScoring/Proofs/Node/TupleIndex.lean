import ConstraintScoring.Node.TupleIndex
import ConstraintScoring.Proofs.Same
import ConstraintScoring.Proofs.Table.Distinct

/-!
# What an index of tuples keeps

An index holds the tuples its node knows on one side, each under the key it came with, and finds
under a key exactly the tuples that came with an equal one.
-/

namespace ConstraintScoring

section TupleLists

variable {t x : TupleId} {ts : List TupleId}

theorem mem_includeTuple : x ∈ includeTuple t ts ↔ x = t ∨ x ∈ ts := by
  unfold includeTuple
  split
  · rename_i h
    have ht : t ∈ ts := by simpa using h
    exact ⟨Or.inr, fun hx => hx.elim (fun hxt => hxt ▸ ht) id⟩
  · simp [or_comm]

theorem nodup_includeTuple (h : ts.Nodup) : (includeTuple t ts).Nodup := by
  unfold includeTuple
  split
  · exact h
  · rename_i ht
    refine List.nodup_append.mpr ⟨h, by simp, fun x hx y hy hxy => ht ?_⟩
    rw [List.mem_singleton.mp hy] at hxy
    simpa [← hxy] using hx

theorem length_includeTuple (h : t ∉ ts) : (includeTuple t ts).length = ts.length + 1 := by
  simp [includeTuple, h]

theorem excludeTuple_perm (t : TupleId) (ts : List TupleId) :
    (excludeTuple t ts).Perm (ts.erase t) := by
  have hperm := removeSwap_perm (· == t) ts
  rwa [← List.erase_eq_eraseP'] at hperm

theorem mem_excludeTuple (h : ts.Nodup) : x ∈ excludeTuple t ts ↔ x ≠ t ∧ x ∈ ts := by
  rw [(excludeTuple_perm t ts).mem_iff, h.mem_erase_iff]

theorem nodup_excludeTuple (h : ts.Nodup) : (excludeTuple t ts).Nodup :=
  (excludeTuple_perm t ts).nodup_iff.mpr (h.erase t)

theorem length_excludeTuple (h : t ∈ ts) : (excludeTuple t ts).length = ts.length - 1 := by
  rw [(excludeTuple_perm t ts).length_eq, List.length_erase_of_mem h]

end TupleLists

namespace TupleIndex

variable {V : Type} [Cell V]

structure Holds (x : TupleIndex V) (known : TupleId → Prop) : Prop where
  keys_distinct : x.keys.Distinct
  buckets_distinct : x.buckets.Distinct
  known_iff : ∀ t, (∃ k, x.keys.get? t = some k) ↔ known t
  mem_withKey : ∀ t k, t ∈ x.withKey k ↔ ∃ l, x.keys.get? t = some l ∧ (l == k) = true
  nodup : ∀ k, (x.withKey k).Nodup

theorem holds_empty : (empty : TupleIndex V).Holds fun _ => False where
  keys_distinct := Table.distinct_empty
  buckets_distinct := Table.distinct_empty
  known_iff t := by simp [empty]
  mem_withKey t k := by simp [empty, withKey, Table.getD]
  nodup k := by simp [empty, withKey, Table.getD]

namespace Holds

variable {x : TupleIndex V} {known known' : TupleId → Prop} {t u : TupleId} {k : Key V}

theorem congr {K : TupleId → Prop} (h : x.Holds known) (hk : ∀ t, known t ↔ K t) : x.Holds K :=
  ⟨h.keys_distinct, h.buckets_distinct, fun t => (h.known_iff t).trans (hk t), h.mem_withKey,
    h.nodup⟩

theorem known_of_mem (h : x.Holds known) (ht : t ∈ x.withKey k) : known t := by
  obtain ⟨l, hl, -⟩ := (h.mem_withKey t k).mp ht
  exact (h.known_iff t).mp ⟨l, hl⟩

theorem get?_eq_none (h : x.Holds known) (ht : ¬known t) : x.keys.get? t = none := by
  by_contra hne
  exact ht ((h.known_iff t).mp (Option.ne_none_iff_exists'.mp hne))

theorem keys_insert (x : TupleIndex V) (t u : TupleId) (k : Key V) :
    (x.insert t k).keys.get? u = if t = u then some k else x.keys.get? u := by
  simp [TupleIndex.insert, Table.get?_insert]

theorem keys_remove (h : x.Holds known) (t u : TupleId) :
    (x.remove t).keys.get? u = if t = u then none else x.keys.get? u := by
  unfold TupleIndex.remove
  cases hk : x.keys.get? t with
  | none =>
      by_cases htu : t = u
      · simp [← htu, hk]
      · simp [htu]
  | some l => simp [h.keys_distinct.get?_erase]

theorem keys_replace (h : x.Holds known) (t u : TupleId) (k : Key V) :
    ((x.remove t).insert t k).keys.get? u = if t = u then some k else x.keys.get? u := by
  rw [keys_insert, h.keys_remove]
  split <;> rfl

variable [Std.TransOrd V]

theorem withKey_congr (x : TupleIndex V) {k l : Key V} (h : (k == l) = true) :
    x.withKey k = x.withKey l := x.buckets.getD_congr h []

theorem withKey_insert (x : TupleIndex V) (t : TupleId) (k l : Key V) :
    (x.insert t k).withKey l = if k == l then includeTuple t (x.withKey l) else x.withKey l := by
  by_cases hkl : k == l
  · rw [if_pos hkl, ← withKey_congr x hkl, ← withKey_congr _ hkl]
    simp [withKey, TupleIndex.insert, Table.getD, Table.get?_insert]
  · rw [if_neg hkl]
    simp [withKey, TupleIndex.insert, Table.getD, Table.get?_insert, hkl]

theorem insert (h : x.Holds known) (ht : ¬known t) :
    (x.insert t k).Holds fun u => u = t ∨ known u := by
  have hnone := h.get?_eq_none ht
  refine ⟨h.keys_distinct.insert _ _, h.buckets_distinct.insert _ _, fun u => ?_, fun u l => ?_,
    fun l => ?_⟩
  · rw [keys_insert]
    by_cases htu : t = u
    · simp [htu]
    · rw [if_neg htu, h.known_iff]
      exact ⟨Or.inr, fun hu => hu.resolve_left (Ne.symm htu)⟩
  · rw [withKey_insert, keys_insert]
    by_cases htu : t = u
    · subst htu
      rw [if_pos rfl]
      by_cases hkl : k == l
      · simp [hkl, mem_includeTuple]
      · simp [hkl, h.mem_withKey, hnone]
    · rw [if_neg htu, ← h.mem_withKey]
      by_cases hkl : k == l
      · simp [hkl, mem_includeTuple, Ne.symm htu]
      · simp [hkl]
  · rw [withKey_insert]
    split
    · exact nodup_includeTuple (h.nodup l)
    · exact h.nodup l

theorem buckets_removeFrom (h : x.Holds known) (t : TupleId) (k l : Key V) :
    (removeFrom x.buckets t k).getD l [] =
      if k == l then excludeTuple t (x.withKey l) else x.withKey l := by
  have hcongr : (k == l) = true → x.buckets.get? l = x.buckets.get? k := fun hkl =>
    (x.buckets.get?_congr hkl).symm
  unfold removeFrom withKey Table.getD
  cases hb : x.buckets.get? k with
  | none =>
      by_cases hkl : k == l
      · simp [hkl, hcongr hkl, hb, excludeTuple, removeSwap]
      · simp [hkl]
  | some ids =>
      by_cases hempty : (excludeTuple t ids).isEmpty
      · by_cases hkl : k == l
        · simp [h.buckets_distinct.get?_erase, hkl, hcongr hkl, hb,
            List.isEmpty_iff.mp hempty]
        · simp [hempty, h.buckets_distinct.get?_erase, hkl]
      · by_cases hkl : k == l
        · simp [hempty, Table.get?_insert, hkl, hcongr hkl, hb]
        · simp [hempty, Table.get?_insert, hkl]

omit [Std.TransOrd V] in
theorem removeFrom_distinct (h : x.Holds known) (t : TupleId) (k : Key V) :
    (removeFrom x.buckets t k).Distinct := by
  unfold removeFrom
  split
  · exact h.buckets_distinct
  · dsimp only
    split
    · exact h.buckets_distinct.erase _
    · exact h.buckets_distinct.insert _ _

theorem remove (h : x.Holds known) (t : TupleId) :
    (x.remove t).Holds fun u => known u ∧ u ≠ t := by
  have hkeys := h.keys_remove t
  have hmem : ∀ u l, u ∈ (x.remove t).withKey l ↔ u ≠ t ∧ u ∈ x.withKey l := by
    intro u l
    unfold TupleIndex.remove
    cases hk : x.keys.get? t with
    | none =>
        refine ⟨fun hu => ⟨fun hut => ?_, hu⟩, And.right⟩
        obtain ⟨l', hl', -⟩ := (h.mem_withKey u l).mp hu
        simp [hut, hk] at hl'
    | some k =>
        change u ∈ (removeFrom x.buckets t k).getD l [] ↔ _
        rw [h.buckets_removeFrom]
        split
        · rw [mem_excludeTuple (h.nodup l)]
        · rename_i hkl
          refine ⟨fun hu => ⟨fun hut => hkl ?_, hu⟩, And.right⟩
          obtain ⟨l', hl', hll⟩ := (h.mem_withKey u l).mp hu
          simp only [hut, hk, Option.some.injEq] at hl'
          exact hl' ▸ hll
  have hnodup : ∀ l, ((x.remove t).withKey l).Nodup := by
    intro l
    unfold TupleIndex.remove
    cases hk : x.keys.get? t with
    | none => exact h.nodup l
    | some k =>
        change ((removeFrom x.buckets t k).getD l []).Nodup
        rw [h.buckets_removeFrom]
        split
        · exact nodup_excludeTuple (h.nodup l)
        · exact h.nodup l
  refine ⟨?_, ?_, fun u => ?_, fun u l => ?_, hnodup⟩
  · unfold TupleIndex.remove
    split
    · exact h.keys_distinct
    · exact h.keys_distinct.erase t
  · unfold TupleIndex.remove
    split
    · exact h.buckets_distinct
    · exact h.removeFrom_distinct t _
  · rw [hkeys]
    by_cases htu : t = u
    · simp [htu]
    · rw [if_neg htu, h.known_iff]
      exact ⟨fun hu => ⟨hu, Ne.symm htu⟩, And.left⟩
  · rw [hmem, hkeys, h.mem_withKey]
    by_cases htu : t = u
    · simp [htu]
    · simp [htu, Ne.symm htu]

end Holds

/-- Two tuples meet if they came with equal keys, one on each side. -/
def Meet (left right : TupleIndex V) (l r : TupleId) : Prop :=
  ∃ k k', left.keys.get? l = some k ∧ right.keys.get? r = some k' ∧ (k == k') = true

section Meet

variable {left right : TupleIndex V} {known : TupleId → Prop} {l r : TupleId} {k k' : Key V}

theorem Holds.known_of_meet_left (h : left.Holds known) (hlr : left.Meet right l r) : known l := by
  obtain ⟨k, -, hk, -⟩ := hlr
  exact (h.known_iff l).mp ⟨k, hk⟩

theorem Holds.known_of_meet_right (h : right.Holds known) (hlr : left.Meet right l r) :
    known r := by
  obtain ⟨-, k, -, hk, -⟩ := hlr
  exact (h.known_iff r).mp ⟨k, hk⟩

/-- Whether two tuples meet depends on the keys of these two only. -/
theorem meet_congr {left' right' : TupleIndex V} (hl : left'.keys.get? l = left.keys.get? l)
    (hr : right'.keys.get? r = right.keys.get? r) : left'.Meet right' l r ↔ left.Meet right l r := by
  unfold Meet
  rw [hl, hr]

variable [Std.TransOrd V]

theorem Holds.meet_iff_mem_right (h : right.Holds known) (hk : left.keys.get? l = some k')
    (hkk : (k' == k) = true) : left.Meet right l r ↔ r ∈ right.withKey k := by
  rw [h.mem_withKey]
  constructor
  · rintro ⟨m, m', hm, hm', heq⟩
    obtain rfl := Option.some.inj (hk.symm.trans hm)
    exact ⟨m', hm', BEq.trans (BEq.symm heq) hkk⟩
  · rintro ⟨m, hm, heq⟩
    exact ⟨k', m, hk, hm, BEq.trans hkk (BEq.symm heq)⟩

theorem Holds.meet_iff_mem_left (h : left.Holds known) (hk : right.keys.get? r = some k')
    (hkk : (k' == k) = true) : left.Meet right l r ↔ l ∈ left.withKey k := by
  rw [h.mem_withKey]
  constructor
  · rintro ⟨m, m', hm, hm', heq⟩
    obtain rfl := Option.some.inj (hk.symm.trans hm')
    exact ⟨m, hm, BEq.trans heq hkk⟩
  · rintro ⟨m, hm, heq⟩
    exact ⟨m, k', hm, hk, BEq.trans heq (BEq.symm hkk)⟩

end Meet

end TupleIndex

end ConstraintScoring
