import ConstraintScoring.Table
import Mathlib.Data.List.Perm.Basic

/-!
# Tables with one entry a key

In a table whose keys are pairwise different, looking up a key finds its entry, and taking an entry
out leaves all other look-ups alone. Every operation on tables keeps the keys different.
-/

namespace ConstraintScoring

section RemoveSwap

variable {α : Type} (p : α → Bool)

theorem perm_getLast_cons_dropLast {as : List α} {last : α} (h : as.getLast? = some last) :
    (last :: as.dropLast).Perm as := by
  obtain ⟨init, rfl⟩ := List.getLast?_eq_some_iff.mp h
  simpa using (List.perm_append_singleton last init).symm

/-- Both ways of taking an element out leave the same elements. -/
theorem removeSwap_perm (as : List α) : (removeSwap p as).Perm (as.eraseP p) := by
  induction as with
  | nil => exact List.Perm.refl []
  | cons a as ih =>
      by_cases ha : p a
      · cases hl : as.getLast? with
        | none => simp [removeSwap, ha, List.getLast?_eq_none_iff.mp hl]
        | some last => simpa [removeSwap, ha, hl] using perm_getLast_cons_dropLast hl
      · simpa [removeSwap, ha] using ih

end RemoveSwap

namespace Table

variable {κ β : Type} [BEq κ]

/-- No two entries have equal keys. -/
def Distinct (t : Table κ β) : Prop := t.entries.Pairwise fun a b => (a.1 == b.1) = false

theorem distinct_empty : (empty : Table κ β).Distinct := List.Pairwise.nil

theorem putIn_of_not_mem {k : κ} (b : β) {es : List (κ × β)} (h : ∀ e ∈ es, (e.1 == k) = false) :
    putIn k b es = es ++ [(k, b)] := by
  induction es with
  | nil => rfl
  | cons e es ih =>
      have he : (e.1 == k) = false := h e (by simp)
      simp [putIn, he, ih fun e he => h e (by simp [he])]

theorem mem_keys_putIn {k : κ} {b : β} {es : List (κ × β)} {e : κ × β} (h : e ∈ putIn k b es) :
    e.1 = k ∨ ∃ e' ∈ es, e'.1 = e.1 := by
  induction es with
  | nil =>
      simp only [putIn, List.mem_singleton] at h
      exact Or.inl (by rw [h])
  | cons a es ih =>
      by_cases ha : a.1 == k
      · simp only [putIn, ha, if_true, List.mem_cons] at h
        rcases h with rfl | h
        · exact Or.inr ⟨a, by simp, rfl⟩
        · exact Or.inr ⟨e, by simp [h], rfl⟩
      · simp only [putIn, ha, Bool.false_eq_true, if_false, List.mem_cons] at h
        rcases h with rfl | h
        · exact Or.inr ⟨e, by simp, rfl⟩
        · rcases ih h with hk | ⟨e', he', hk⟩
          · exact Or.inl hk
          · exact Or.inr ⟨e', by simp [he'], hk⟩

theorem get?_eq_none_iff {t : Table κ β} {k : κ} :
    t.get? k = none ↔ ∀ e ∈ t.entries, (e.1 == k) = false := by
  simp [get?]

theorem contains_eq_isSome (t : Table κ β) (k : κ) : t.contains k = (t.get? k).isSome := by
  simp only [contains, get?, Option.isSome_map]
  rw [Bool.eq_iff_iff, List.any_eq_true, List.find?_isSome]

theorem mem_of_get? {t : Table κ β} {k : κ} {b : β} (h : t.get? k = some b) :
    ∃ k', (k', b) ∈ t.entries ∧ (k' == k) = true := by
  obtain ⟨e, he, rfl⟩ := Option.map_eq_some_iff.mp h
  exact ⟨e.1, List.mem_of_find?_eq_some he, by simpa using List.find?_some he⟩

theorem mem_values_of_get? {t : Table κ β} {k : κ} {b : β} (h : t.get? k = some b) :
    b ∈ t.values := by
  obtain ⟨k', hk, -⟩ := mem_of_get? h
  exact List.mem_map.mpr ⟨(k', b), hk, rfl⟩

/-- A new key comes last. -/
theorem insert_entries_of_none {t : Table κ β} {k : κ} (b : β) (h : t.get? k = none) :
    (t.insert k b).entries = t.entries ++ [(k, b)] :=
  putIn_of_not_mem b (get?_eq_none_iff.mp h)

theorem beq_false_of_beq_left [PartialEquivBEq κ] {a b c : κ} (h : (a == b) = true)
    (hc : (b == c) = false) : (a == c) = false := by
  cases hac : a == c with
  | false => rfl
  | true => exact absurd (BEq.trans (BEq.symm h) hac) (by simp [hc])

theorem putIn_pairwise {k : κ} {b : β} {es : List (κ × β)}
    (h : es.Pairwise fun a b => (a.1 == b.1) = false) :
    (putIn k b es).Pairwise fun a b => (a.1 == b.1) = false := by
  induction es with
  | nil => simp [putIn]
  | cons a es ih =>
      rw [List.pairwise_cons] at h
      by_cases ha : a.1 == k
      · simp only [putIn, ha, if_true]
        exact List.pairwise_cons.mpr h
      · simp only [putIn, ha, Bool.false_eq_true, if_false]
        refine List.pairwise_cons.mpr ⟨fun e he => ?_, ih h.2⟩
        rcases mem_keys_putIn he with hk | ⟨e', he', hk⟩
        · rw [hk]
          simpa using ha
        · rw [← hk]
          exact h.1 e' he'

variable [EquivBEq κ]

omit [EquivBEq κ] in
theorem Distinct.insert {t : Table κ β} (h : t.Distinct) (k : κ) (b : β) :
    (t.insert k b).Distinct := putIn_pairwise h

omit [EquivBEq κ] in
theorem Distinct.erase {t : Table κ β} (h : t.Distinct) (k : κ) : (t.erase k).Distinct :=
  List.Pairwise.sublist List.eraseP_sublist h

theorem Distinct.perm {t u : Table κ β} (h : t.Distinct) (hp : t.entries.Perm u.entries) :
    u.Distinct := by
  refine (hp.pairwise_iff fun {a b} hab => ?_).mp h
  cases hba : b.1 == a.1 with
  | false => rfl
  | true => simp [BEq.symm hba] at hab

omit [EquivBEq κ] in
theorem eraseSwap_perm (t : Table κ β) (k : κ) : (t.eraseSwap k).entries.Perm (t.erase k).entries :=
  removeSwap_perm _ _

theorem Distinct.eraseSwap {t : Table κ β} (h : t.Distinct) (k : κ) : (t.eraseSwap k).Distinct :=
  (h.erase k).perm (eraseSwap_perm t k).symm

omit [EquivBEq κ] in
theorem Distinct.modify {t : Table κ β} (h : t.Distinct) (k : κ) (f : β → β) :
    (t.modify k f).Distinct := by
  unfold Table.modify
  split
  · exact h.insert ..
  · exact h

theorem get?_congr (t : Table κ β) {k l : κ} (h : (k == l) = true) : t.get? k = t.get? l := by
  have hp : (fun e : κ × β => e.1 == k) = fun e => e.1 == l := by
    funext e
    rw [Bool.eq_iff_iff]
    exact ⟨fun he => BEq.trans he h, fun he => BEq.trans he (BEq.symm h)⟩
  simp only [get?, hp]

theorem getD_congr (t : Table κ β) {k l : κ} (h : (k == l) = true) (b : β) :
    t.getD k b = t.getD l b := by
  simp only [getD, t.get?_congr h]

theorem Distinct.get?_of_mem {t : Table κ β} (h : t.Distinct) {k l : κ} {b : β}
    (hm : (k, b) ∈ t.entries) (hk : (k == l) = true) : t.get? l = some b := by
  obtain ⟨es⟩ := t
  induction es with
  | nil => simp at hm
  | cons e es ih =>
      obtain ⟨hhead, htail⟩ := List.pairwise_cons.mp h
      rcases List.mem_cons.mp hm with rfl | hm
      · simp [get?, hk]
      · have he : (e.1 == l) = false := by
          have hek := hhead (k, b) hm
          cases hel : e.1 == l with
          | false => rfl
          | true => simp [BEq.trans hel (BEq.symm hk)] at hek
        have ih := ih htail hm
        simpa [get?, he] using ih

theorem Distinct.get?_perm {t u : Table κ β} (h : t.Distinct) (hp : t.entries.Perm u.entries)
    (k : κ) : t.get? k = u.get? k := by
  cases hk : t.get? k with
  | none =>
      refine (get?_eq_none_iff.mpr fun e he => ?_).symm
      exact get?_eq_none_iff.mp hk e (hp.mem_iff.mpr he)
  | some b =>
      obtain ⟨k', hm, hk'⟩ := mem_of_get? hk
      exact ((h.perm hp).get?_of_mem (hp.mem_iff.mp hm) hk').symm

theorem get?_insert (t : Table κ β) (k l : κ) (b : β) :
    (t.insert k b).get? l = if k == l then some b else t.get? l := by
  by_cases h : k == l
  · rw [if_pos h, ← get?_congr _ h, get?_insert_same]
  · rw [if_neg h, get?_insert_other t b (by simpa using h)]

theorem Distinct.get?_erase {t : Table κ β} (h : t.Distinct) (k l : κ) :
    (t.erase k).get? l = if k == l then none else t.get? l := by
  obtain ⟨es⟩ := t
  induction es with
  | nil => simp [Table.erase, get?]
  | cons e es ih =>
      obtain ⟨hhead, htail⟩ := List.pairwise_cons.mp h
      by_cases hek : e.1 == k
      · have herase : (⟨e :: es⟩ : Table κ β).erase k = ⟨es⟩ := by simp [Table.erase, hek]
        rw [herase]
        by_cases hkl : k == l
        · rw [if_pos hkl, get?_eq_none_iff]
          intro a ha
          have hea := hhead a ha
          cases hal : a.1 == l with
          | false => rfl
          | true => simp [BEq.trans hek (BEq.trans hkl (BEq.symm hal))] at hea
        · have hel : (e.1 == l) = false :=
            beq_false_of_beq_left hek (by simpa using hkl)
          simp [hkl, get?, hel]
      · have herase : (⟨e :: es⟩ : Table κ β).erase k = ⟨e :: es.eraseP (·.1 == k)⟩ := by
          simp [Table.erase, hek]
        rw [herase]
        by_cases hel : e.1 == l
        · have hkl : (k == l) = false := by
            cases hkl : k == l with
            | false => rfl
            | true => exact absurd (BEq.trans hel (BEq.symm hkl)) hek
          simp [get?, hel, hkl]
        · simpa [get?, hel, Table.erase] using ih htail

/-- Writing under a key that has an entry changes the entry where it is. -/
theorem Distinct.insert_entries_of_some {t : Table κ β} (h : t.Distinct) {k : κ} (b : β)
    (hk : (t.get? k).isSome) :
    (t.insert k b).entries = t.entries.map fun e => (e.1, if k == e.1 then b else e.2) := by
  obtain ⟨es⟩ := t
  induction es with
  | nil => cases hk
  | cons e es ih =>
      obtain ⟨hhead, htail⟩ := List.pairwise_cons.mp h
      cases he : e.1 == k with
      | true =>
          have hrest : es.map (fun x => (x.1, if k == x.1 then b else x.2)) = es := by
            refine (List.map_congr_left fun x hx => ?_).trans (List.map_id es)
            rw [beq_false_of_beq_left (BEq.symm he) (hhead x hx), if_neg Bool.false_ne_true]
            rfl
          simp [Table.insert, putIn, he, BEq.symm he, hrest]
      | false =>
          have hin : (⟨es⟩ : Table κ β).get? k = (⟨e :: es⟩ : Table κ β).get? k := by
            simp [get?, he]
          have ih := ih htail (hin ▸ hk)
          simpa [Table.insert, putIn, he, BEq.symm_false he] using ih

/-- Taking an entry out leaves those with other keys in their order. -/
theorem Distinct.erase_entries {t : Table κ β} (h : t.Distinct) (k : κ) :
    (t.erase k).entries = t.entries.filter fun e => !(k == e.1) := by
  obtain ⟨es⟩ := t
  induction es with
  | nil => rfl
  | cons e es ih =>
      obtain ⟨hhead, htail⟩ := List.pairwise_cons.mp h
      cases he : e.1 == k with
      | true =>
          have hrest : es.filter (fun x => !(k == x.1)) = es := List.filter_eq_self.mpr fun x hx => by
            rw [beq_false_of_beq_left (BEq.symm he) (hhead x hx)]
            rfl
          simp [Table.erase, he, BEq.symm he, hrest]
      | false => simpa [Table.erase, he, BEq.symm_false he] using ih htail

theorem Distinct.get?_eraseSwap {t : Table κ β} (h : t.Distinct) (k l : κ) :
    (t.eraseSwap k).get? l = if k == l then none else t.get? l := by
  rw [(h.eraseSwap k).get?_perm (eraseSwap_perm t k), h.get?_erase]

theorem get?_modify (t : Table κ β) (k l : κ) (f : β → β) :
    (t.modify k f).get? l = if k == l then (t.get? l).map f else t.get? l := by
  unfold Table.modify
  cases hk : t.get? k with
  | none =>
      by_cases hkl : k == l
      · simp [hkl, ← t.get?_congr hkl, hk]
      · simp [hkl]
  | some b =>
      by_cases hkl : k == l
      · simp [get?_insert, hkl, ← t.get?_congr hkl, hk]
      · simp [get?_insert, hkl]

section Values

omit [EquivBEq κ] in
theorem putIn_values_of_mem {k : κ} {b c : β} {es : List (κ × β)}
    (h : (es.find? (·.1 == k)).map (·.2) = some b) :
    ∃ before after, es.map (·.2) = before ++ b :: after ∧
      (putIn k c es).map (·.2) = before ++ c :: after := by
  induction es with
  | nil => simp at h
  | cons e es ih =>
      by_cases he : e.1 == k
      · have hb : e.2 = b := by simpa [he] using h
        exact ⟨[], es.map (·.2), by simp [hb], by simp [putIn, he]⟩
      · obtain ⟨before, after, hes, hput⟩ := ih (by simpa [he] using h)
        exact ⟨e.2 :: before, after, by simp [hes], by simp [putIn, he, hput]⟩

omit [EquivBEq κ] in
/-- Writing under a key that has an entry exchanges one value. -/
theorem values_insert_of_some {t : Table κ β} {k : κ} {b : β} (c : β) (h : t.get? k = some b) :
    ∃ rest, t.values.Perm (b :: rest) ∧ (t.insert k c).values.Perm (c :: rest) := by
  obtain ⟨before, after, hes, hput⟩ := putIn_values_of_mem (c := c) h
  refine ⟨before ++ after, ?_, ?_⟩
  · rw [show t.values = before ++ b :: after from hes]
    exact List.perm_middle
  · rw [show (t.insert k c).values = before ++ c :: after from hput]
    exact List.perm_middle

omit [EquivBEq κ] in
theorem values_insert_of_none {t : Table κ β} {k : κ} (b : β) (h : t.get? k = none) :
    (t.insert k b).values = t.values ++ [b] := by
  simp [values, insert_entries_of_none b h]

omit [EquivBEq κ] in
theorem values_erase_of_some {t : Table κ β} {k : κ} {b : β} (h : t.get? k = some b) :
    t.values.Perm (b :: (t.erase k).values) := by
  obtain ⟨es⟩ := t
  induction es with
  | nil => simp [get?] at h
  | cons e es ih =>
      by_cases he : e.1 == k
      · have hb : e.2 = b := by simpa [get?, he] using h
        simp [values, Table.erase, he, hb]
      · have ih := ih (by simpa [get?, he] using h)
        have hswap : (e.2 :: es.map (·.2)).Perm (b :: e.2 :: (es.eraseP (·.1 == k)).map (·.2)) :=
          (List.Perm.cons e.2 ih).trans (List.Perm.swap ..)
        simpa [values, Table.erase, he] using hswap

omit [EquivBEq κ] in
theorem erase_of_none {t : Table κ β} {k : κ} (h : t.get? k = none) : t.erase k = t := by
  obtain ⟨es⟩ := t
  simp only [Table.erase, Table.mk.injEq]
  exact List.eraseP_of_forall_not fun e he => by simpa using get?_eq_none_iff.mp h e he

omit [EquivBEq κ] in
/-- The value of a key, if it has one, and the values of all others. -/
theorem values_perm (t : Table κ β) (k : κ) :
    t.values.Perm ((t.get? k).toList ++ (t.erase k).values) := by
  cases hk : t.get? k with
  | none => simp [erase_of_none hk]
  | some b => simpa using values_erase_of_some hk

omit [EquivBEq κ] in
theorem values_insert (t : Table κ β) (k : κ) (b : β) :
    (t.insert k b).values.Perm (b :: (t.erase k).values) := by
  cases hk : t.get? k with
  | none =>
      rw [values_insert_of_none b hk, erase_of_none hk]
      exact List.perm_append_singleton b t.values
  | some c =>
      obtain ⟨rest, hvalues, hinsert⟩ := values_insert_of_some b hk
      have hrest : rest.Perm (t.erase k).values :=
        (hvalues.symm.trans (values_erase_of_some hk)).cons_inv
      exact hinsert.trans (hrest.cons b)

omit [EquivBEq κ] in
theorem values_eraseSwap (t : Table κ β) (k : κ) : (t.eraseSwap k).values.Perm (t.erase k).values :=
  (eraseSwap_perm t k).map _

theorem Distinct.mem_values_iff {t : Table κ β} (h : t.Distinct) {b : β} :
    b ∈ t.values ↔ ∃ k, t.get? k = some b := by
  constructor
  · intro hb
    obtain ⟨⟨k, _⟩, hm, rfl⟩ := List.mem_map.mp hb
    exact ⟨k, h.get?_of_mem hm BEq.rfl⟩
  · rintro ⟨k, hk⟩
    exact mem_values_of_get? hk

theorem Distinct.values_of_unused {t : Table κ β} (h : t.Distinct) (hk : ∀ k, t.get? k = none) :
    t.values = [] := by
  refine List.eq_nil_iff_forall_not_mem.mpr fun b hb => ?_
  obtain ⟨k, hb⟩ := h.mem_values_iff.mp hb
  cases (hk k).symm.trans hb

/-- The values are those of any different keys among which there is one for every entry. -/
theorem Distinct.values_perm_filterMap {t : Table κ β} {ks : List κ} (h : t.Distinct)
    (hks : ks.Pairwise fun k l => (k == l) = false)
    (hcovers : ∀ k b, t.get? k = some b → ∃ l ∈ ks, (l == k) = true) :
    t.values.Perm (ks.filterMap t.get?) := by
  induction ks generalizing t with
  | nil =>
      have hnone : ∀ k, t.get? k = none := fun k =>
        Option.eq_none_iff_forall_ne_some.mpr fun b hb => by
          obtain ⟨l, hl, -⟩ := hcovers k b hb
          cases hl
      rw [h.values_of_unused hnone]
      exact List.Perm.refl _
  | cons k ks ih =>
      obtain ⟨hk, hks⟩ := List.pairwise_cons.mp hks
      have hother : ks.filterMap (t.erase k).get? = ks.filterMap t.get? :=
        List.filterMap_congr fun l hl => by rw [h.get?_erase, hk l hl, if_neg Bool.false_ne_true]
      have herase : (t.erase k).values.Perm (ks.filterMap t.get?) := by
        rw [← hother]
        refine ih (h.erase k) hks fun l b hl => ?_
        rw [h.get?_erase] at hl
        cases hkl : k == l with
        | true => rw [hkl, if_pos rfl] at hl; cases hl
        | false =>
            rw [hkl, if_neg Bool.false_ne_true] at hl
            obtain ⟨l', hl', heq⟩ := hcovers l b hl
            rcases List.mem_cons.mp hl' with rfl | hl'
            · rw [hkl] at heq; cases heq
            · exact ⟨l', hl', heq⟩
      refine (values_perm t k).trans ((herase.append_left _).trans ?_)
      cases hget : t.get? k with
      | none => simp [hget]
      | some b => simp [hget]

end Values

end Table

end ConstraintScoring
