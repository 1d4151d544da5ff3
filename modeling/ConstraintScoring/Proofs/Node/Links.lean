import ConstraintScoring.Proofs.Node.TupleIndex

/-!
# Tables of tuple lists

A node that pairs its inputs keeps for each tuple of one side the tuples of the other side that it
is paired with.
-/

namespace ConstraintScoring

/-- Every tuple has one list, in which no tuple occurs twice. -/
structure Links (T : Table TupleId (List TupleId)) : Prop where
  distinct : T.Distinct
  nodup : ∀ r, (T.getD r []).Nodup

theorem links_empty : Links .empty := ⟨Table.distinct_empty, fun r => by simp [Table.getD]⟩

namespace Table

variable {T : Table TupleId (List TupleId)} {l r r' x : TupleId}

def link (T : Table TupleId (List TupleId)) (l r : TupleId) : Table TupleId (List TupleId) :=
  T.insert r (includeTuple l (T.getD r []))

def unlink (T : Table TupleId (List TupleId)) (l r : TupleId) : Table TupleId (List TupleId) :=
  T.modify r (excludeTuple l)

theorem getD_insert (T : Table TupleId (List TupleId)) (r r' : TupleId) (ls : List TupleId) :
    (T.insert r ls).getD r' [] = if r = r' then ls else T.getD r' [] := by
  by_cases h : r = r' <;> simp [getD, get?_insert, h]

theorem getD_link : (T.link l r).getD r' [] =
    if r = r' then includeTuple l (T.getD r []) else T.getD r' [] := getD_insert ..

theorem getD_unlink : (T.unlink l r).getD r' [] =
    if r = r' then excludeTuple l (T.getD r' []) else T.getD r' [] := by
  unfold getD unlink
  rw [get?_modify]
  by_cases h : r = r'
  · cases hr : T.get? r' <;> simp [h, excludeTuple, removeSwap]
  · simp [h]

theorem mem_link : x ∈ (T.link l r).getD r' [] ↔ x = l ∧ r' = r ∨ x ∈ T.getD r' [] := by
  rw [getD_link]
  by_cases h : r = r'
  · subst h
    simp [mem_includeTuple]
  · simp [h, Ne.symm h]

end Table

namespace Links

variable {T : Table TupleId (List TupleId)} {l r r' x : TupleId}

theorem link (h : Links T) (l r : TupleId) : Links (T.link l r) := by
  refine ⟨h.distinct.insert _ _, fun r' => ?_⟩
  rw [Table.getD_link]
  split
  · exact nodup_includeTuple (h.nodup r)
  · exact h.nodup r'

theorem unlink (h : Links T) (l r : TupleId) : Links (T.unlink l r) := by
  refine ⟨h.distinct.modify _ _, fun r' => ?_⟩
  rw [Table.getD_unlink]
  split
  · exact nodup_excludeTuple (h.nodup r')
  · exact h.nodup r'

theorem insert (h : Links T) {ls : List TupleId} (hls : ls.Nodup) (r : TupleId) :
    Links (T.insert r ls) := by
  refine ⟨h.distinct.insert _ _, fun r' => ?_⟩
  rw [Table.getD_insert]
  split
  · exact hls
  · exact h.nodup r'

theorem getD_erase (h : Links T) (r r' : TupleId) :
    (T.erase r).getD r' [] = if r = r' then [] else T.getD r' [] := by
  by_cases hr : r = r' <;> simp [Table.getD, h.distinct.get?_erase, hr]

theorem getD_replace (h : Links T) (r r' : TupleId) (ls : List TupleId) :
    ((T.erase r).insert r ls).getD r' [] = if r = r' then ls else T.getD r' [] := by
  rw [Table.getD_insert, h.getD_erase]
  split <;> rfl

theorem erase (h : Links T) (r : TupleId) : Links (T.erase r) := by
  refine ⟨h.distinct.erase r, fun r' => ?_⟩
  rw [h.getD_erase]
  split
  · exact List.nodup_nil
  · exact h.nodup r'

theorem mem_unlink (h : Links T) :
    x ∈ (T.unlink l r).getD r' [] ↔ x ∈ T.getD r' [] ∧ ¬(x = l ∧ r' = r) := by
  rw [Table.getD_unlink]
  by_cases hr : r = r'
  · rw [if_pos hr, mem_excludeTuple (h.nodup r')]
    exact ⟨fun hx => ⟨hx.2, fun hx' => hx.1 hx'.1⟩,
      fun hx => ⟨fun hxl => hx.2 ⟨hxl, hr.symm⟩, hx.1⟩⟩
  · rw [if_neg hr]
    exact ⟨fun hx => ⟨hx, fun hx' => hr hx'.2.symm⟩, And.left⟩

/-- Taking a tuple out of several lists. -/
theorem unlinkAll (h : Links T) (l : TupleId) (rs : List TupleId) :
    Links (rs.foldl (fun T r => T.unlink l r) T) ∧ ∀ x r',
      x ∈ (rs.foldl (fun T r => T.unlink l r) T).getD r' [] ↔
        x ∈ T.getD r' [] ∧ ¬(x = l ∧ r' ∈ rs) := by
  induction rs generalizing T with
  | nil => exact ⟨h, fun x r' => by simp⟩
  | cons r rs ih =>
      obtain ⟨hlinks, hmem⟩ := ih (h.unlink l r)
      refine ⟨hlinks, fun x r' => ?_⟩
      rw [List.foldl_cons, hmem, h.mem_unlink, List.mem_cons]
      tauto

/-- Putting a tuple into several lists. -/
theorem linkAll (h : Links T) (l : TupleId) (rs : List TupleId) :
    Links (rs.foldl (fun T r => T.link l r) T) ∧ ∀ x r',
      x ∈ (rs.foldl (fun T r => T.link l r) T).getD r' [] ↔
        x = l ∧ r' ∈ rs ∨ x ∈ T.getD r' [] := by
  induction rs generalizing T with
  | nil => exact ⟨h, fun x r' => by simp⟩
  | cons r rs ih =>
      obtain ⟨hlinks, hmem⟩ := ih (h.link l r)
      refine ⟨hlinks, fun x r' => ?_⟩
      rw [List.foldl_cons, hmem, Table.mem_link, List.mem_cons]
      tauto

end Links

end ConstraintScoring
