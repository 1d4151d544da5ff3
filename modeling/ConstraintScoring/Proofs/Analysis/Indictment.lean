import ConstraintScoring.Analysis.Indictment
import ConstraintScoring.Proofs.FirstSeen
import ConstraintScoring.Proofs.Outcome
import ConstraintScoring.Proofs.Score.Sums
import ConstraintScoring.Proofs.Table.Distinct
import Mathlib.Algebra.BigOperators.Pi

/-!
# Indictments regroup matches

The charges against an entity are the matches that indict it. Filing a match under one entity adds
it to the charges of that entity and leaves all others alone, so once all matches are filed there is
one indictment for each entity with any charges, and it holds just these. Filing fails only where
the scores of the charges against some entity cannot be added up one after the other.
-/

namespace ConstraintScoring

variable {S : Type}

/-- The matches that indict an entity, in their order. -/
def EntityRef.charges (e : EntityRef) (ms : List (ConstraintMatch S)) : List (ConstraintMatch S) :=
  ms.filter fun m => e ∈ m.indicted

theorem EntityRef.charges_concat (e : EntityRef) (ms : List (ConstraintMatch S))
    (m : ConstraintMatch S) :
    e.charges (ms ++ [m]) = if e ∈ m.indicted then e.charges ms ++ [m] else e.charges ms := by
  by_cases h : e ∈ m.indicted <;> simp [charges, h]

theorem EntityRef.charges_ne_nil_iff {e : EntityRef} {ms : List (ConstraintMatch S)} :
    e.charges ms ≠ [] ↔ ∃ m ∈ ms, e ∈ m.indicted := by
  simp [charges, List.filter_eq_nil_iff]

variable [Score S]

/-- The scores of the matches can be added up one after the other. -/
def AddUp (ms : List (ConstraintMatch S)) : Prop := Score.SumsFit (ms.map (·.score))

theorem addUp_concat {ms : List (ConstraintMatch S)} {m : ConstraintMatch S} :
    AddUp (ms ++ [m]) ↔ AddUp ms ∧
      ∀ k, Whole.InRange (Score.total (ms.map (·.score)) k + Score.level m.score k) := by
  unfold AddUp
  rw [List.map_append]
  exact Score.sumsFit_concat

namespace Indictment

variable {i : Indictment S} {e : EntityRef} {ms : List (ConstraintMatch S)} {m : ConstraintMatch S}

/-- The indictment of an entity for some matches. -/
structure IsFor (i : Indictment S) (e : EntityRef) (ms : List (ConstraintMatch S)) : Prop where
  entity : i.entity = e
  matched : i.matched = ms
  score : Score.level i.score = Score.total (ms.map (·.score))

variable [LawfulScore S]

theorem new_isFor (e : EntityRef) : (new e : Indictment S).IsFor e [] :=
  ⟨rfl, rfl, Score.level_zero⟩

theorem IsFor.push (h : i.IsFor e ms) (hfits : AddUp (ms ++ [m])) :
    ∃ i', i.push m = .ok i' ∧ i'.IsFor e (ms ++ [m]) := by
  obtain ⟨-, hsum⟩ := addUp_concat.mp hfits
  rw [← h.score] at hsum
  obtain ⟨score, hscore⟩ := Score.add_of_inRange hsum
  refine ⟨{ i with score, matched := i.matched ++ [m] }, ?_, h.entity, ?_, ?_⟩
  · exact Outcome.bind_eq_ok.mpr ⟨score, hscore, rfl⟩
  · exact congrArg (· ++ [m]) h.matched
  · rw [List.map_append]
    exact (Score.level_add hscore).trans (h.score ▸ (Score.total_concat _ _).symm)

theorem IsFor.push_overflows (h : i.IsFor e ms) (hms : AddUp ms) (hfits : ¬ AddUp (ms ++ [m])) :
    i.push m = .error .add := by
  have hsum := fun hall => hfits (addUp_concat.mpr ⟨hms, hall⟩)
  obtain ⟨k, hk⟩ := not_forall.mp hsum
  rw [← h.score] at hk
  exact Outcome.bind_eq_error.mpr (Or.inl (Score.add_of_not_inRange hk))

end Indictment

/-- An indictment for every entity against which something is filed, and no other. -/
structure Files (t : Table EntityRef (Indictment S))
    (filed : EntityRef → List (ConstraintMatch S)) : Prop where
  distinct : t.Distinct
  get?_eq_none_iff : ∀ e, t.get? e = none ↔ filed e = []
  isFor : ∀ e i, t.get? e = some i → i.IsFor e (filed e)

/-- What filing can come to: a table of all that was filed, or an overflow, if the charges against
some entity cannot be added up. -/
inductive Filing (filed : EntityRef → List (ConstraintMatch S)) :
    Except Overflow (Table EntityRef (Indictment S)) → Prop
  | files {t : Table EntityRef (Indictment S)} (h : Files t filed) (hfits : ∀ e, AddUp (filed e)) :
      Filing filed (.ok t)
  | overflows (h : ¬ ∀ e, AddUp (filed e)) : Filing filed (.error .add)

variable {t : Table EntityRef (Indictment S)} {filed : EntityRef → List (ConstraintMatch S)}
  {x : Except Overflow (Table EntityRef (Indictment S))} {e : EntityRef} {m : ConstraintMatch S}

theorem addUp_update : (∀ e', AddUp (Function.update filed e (filed e ++ [m]) e')) ↔
    (∀ e', AddUp (filed e')) ∧ AddUp (filed e ++ [m]) := by
  rw [Function.forall_update_iff filed fun _ ms => AddUp ms]
  constructor
  · rintro ⟨hmore, hothers⟩
    refine ⟨fun e' => ?_, hmore⟩
    by_cases he : e' = e
    · rw [he]
      exact (addUp_concat.mp hmore).1
    · exact hothers e' he
  · rintro ⟨hall, hmore⟩
    exact ⟨hmore, fun e' _ => hall e'⟩

namespace Files

theorem empty : Files (S := S) .empty fun _ => [] where
  distinct := Table.distinct_empty
  get?_eq_none_iff _ := ⟨fun _ => rfl, fun _ => rfl⟩
  isFor e i hi := by cases hi

theorem insert (h : Files t filed) {i : Indictment S} {ms : List (ConstraintMatch S)}
    (hi : i.IsFor e ms) (hms : ms ≠ []) : Files (t.insert e i) (Function.update filed e ms) where
  distinct := h.distinct.insert e i
  get?_eq_none_iff e' := by
    rw [Table.get?_insert]
    by_cases he : e = e'
    · subst he
      simp [hms]
    · simp [he, Ne.symm he, h.get?_eq_none_iff]
  isFor e' i' hi' := by
    rw [Table.get?_insert] at hi'
    by_cases he : e = e'
    · subst he
      rw [if_pos BEq.rfl] at hi'
      rw [Function.update_self, ← Option.some.inj hi']
      exact hi
    · rw [if_neg (by simpa using he)] at hi'
      rw [Function.update_of_ne (Ne.symm he)]
      exact h.isFor e' i' hi'

theorem get?_eq_some_iff (h : Files t filed) {i : Indictment S} :
    t.get? e = some i ↔ i ∈ t.values ∧ i.entity = e := by
  constructor
  · intro hi
    exact ⟨Table.mem_values_of_get? hi, (h.isFor e i hi).entity⟩
  · rintro ⟨hi, rfl⟩
    obtain ⟨e, he⟩ := h.distinct.mem_values_iff.mp hi
    rwa [(h.isFor e i he).entity]

theorem map_entity (h : Files t filed) : t.values.map (·.entity) = t.keys := by
  unfold Table.values Table.keys
  rw [List.map_map]
  refine List.map_congr_left fun entry hentry => ?_
  exact (h.isFor _ _ (h.distinct.get?_of_mem hentry BEq.rfl)).entity

theorem nodup_entities (h : Files t filed) : (t.values.map (·.entity)).Nodup := by
  rw [h.map_entity]
  exact List.pairwise_map.mpr (h.distinct.imp fun hne heq => by simp [heq] at hne)

theorem mem_entities_iff (h : Files t filed) (e : EntityRef) :
    e ∈ t.values.map (·.entity) ↔ filed e ≠ [] := by
  rw [List.mem_map, Ne, ← h.get?_eq_none_iff e, ← Ne, Option.ne_none_iff_exists']
  exact exists_congr fun i => h.get?_eq_some_iff.symm

variable [LawfulScore S]

/-- The indictment that a further match is added to. -/
theorem current (h : Files t filed) (e : EntityRef) :
    ((t.get? e).getD (.new e)).IsFor e (filed e) := by
  cases hi : t.get? e with
  | none =>
      rw [(h.get?_eq_none_iff e).mp hi]
      exact Indictment.new_isFor e
  | some i => exact h.isFor e i hi

theorem add (h : Files t filed) (hmore : AddUp (filed e ++ [m])) :
    ∃ t', IndictmentMap.add t m e = .ok t' ∧
      Files t' (Function.update filed e (filed e ++ [m])) := by
  obtain ⟨i, hi, hnew⟩ := (h.current e).push hmore
  exact ⟨t.insert e i, Outcome.bind_eq_ok.mpr ⟨i, hi, rfl⟩, h.insert hnew (by simp)⟩

theorem add_overflows (h : Files t filed) (hfits : AddUp (filed e))
    (hmore : ¬ AddUp (filed e ++ [m])) :
    IndictmentMap.add t m e = .error .add :=
  Outcome.bind_eq_error.mpr (Or.inl ((h.current e).push_overflows hfits hmore))

end Files

namespace Filing

variable [LawfulScore S]

/-- Filing a match under one entity. -/
theorem add (h : Filing filed x) (m : ConstraintMatch S) (e : EntityRef) :
    Filing (Function.update filed e (filed e ++ [m])) (x >>= fun t => IndictmentMap.add t m e) := by
  cases h with
  | @files t h hfits =>
      change Filing _ (IndictmentMap.add t m e)
      by_cases hmore : AddUp (filed e ++ [m])
      · obtain ⟨t', ht', hfiles⟩ := h.add hmore
        rw [ht']
        exact .files hfiles (addUp_update.mpr ⟨hfits, hmore⟩)
      · rw [h.add_overflows (hfits e) hmore]
        exact .overflows fun hall => hmore (addUp_update.mp hall).2
  | overflows h => exact .overflows fun hall => h (addUp_update.mp hall).1

/-- Filing a match under some entities, each once. -/
theorem addAll (h : Filing filed x) (m : ConstraintMatch S) {es : List EntityRef} (hes : es.Nodup) :
    Filing (fun e => if e ∈ es then filed e ++ [m] else filed e)
      (x >>= fun t => es.foldlM (IndictmentMap.add · m) t) := by
  induction es generalizing filed x with
  | nil => simpa using h
  | cons e es ih =>
      obtain ⟨he, hes⟩ := List.nodup_cons.mp hes
      -- The tail is filed after the head and does not name it again, so its charges stay as they are.
      have hrest := ih (h.add m e) hes
      rw [bind_assoc] at hrest
      simp only [List.foldlM_cons]
      convert hrest using 2 with e'
      by_cases hee : e' = e
      · subst hee
        simp [he]
      · simp [hee]

theorem addMatch (h : Filing filed x) (m : ConstraintMatch S) :
    Filing (fun e => if e ∈ m.indicted then filed e ++ [m] else filed e)
      (x >>= fun t => IndictmentMap.addMatch t m) := by
  simpa only [IndictmentMap.addMatch, List.mem_eraseDups] using
    h.addAll m (firstSeen_eraseDups m.indicted).nodup

/-- Filing some matches after those that have been filed. -/
theorem addMatches {filedMatches : List (ConstraintMatch S)} (h : Filing (·.charges filedMatches) x)
    (ms : List (ConstraintMatch S)) :
    Filing (·.charges (filedMatches ++ ms))
      (x >>= fun t => ms.foldlM IndictmentMap.addMatch t) := by
  induction ms generalizing filedMatches x with
  | nil => simpa using h
  | cons m ms ih =>
      have hm : Filing (·.charges (filedMatches ++ [m]))
          (x >>= fun t => IndictmentMap.addMatch t m) := by
        simpa only [EntityRef.charges_concat] using h.addMatch m
      simpa [bind_assoc] using ih hm

theorem ofMatches (ms : List (ConstraintMatch S)) :
    Filing (·.charges ms) (ms.foldlM IndictmentMap.addMatch .empty) := by
  have hstart : Filing (S := S) (·.charges []) (.ok .empty) :=
    .files .empty fun _ => Score.sumsFit_nil
  exact hstart.addMatches ms

end Filing

namespace IndictmentMap

/-- The indictments are a regrouping of the matches by the entities that they indict. -/
structure Regroups (t : IndictmentMap S) (ms : List (ConstraintMatch S)) : Prop where
  nodup : (t.indictments.map (·.entity)).Nodup
  mem_entities_iff : ∀ e, e ∈ t.indictments.map (·.entity) ↔ ∃ m ∈ ms, e ∈ m.indicted
  get?_eq_some_iff : ∀ e i, t.get? e = some i ↔ i ∈ t.indictments ∧ i.entity = e
  matched : ∀ i ∈ t.indictments, i.matched = i.entity.charges ms
  score : ∀ i ∈ t.indictments, Score.level i.score = Score.total (i.matched.map (·.score))
  constraints : ∀ i ∈ t.indictments, FirstSeen (i.matched.map (·.constraint)) i.constraints
  worstFirst_perm : t.worstFirst.Perm t.indictments
  worstFirst_sorted : t.worstFirst.Pairwise fun i j => (Score.order i.score j.score).isLE
  unblamed : ∀ m, m.indicted = [] → ∀ i ∈ t.indictments, m ∉ i.matched

theorem worstFirst_ascending (t : IndictmentMap S) :
    t.worstFirst.Pairwise fun i j => (Score.order i.score j.score).isLE := by
  have hle : ∀ o : Ordering, (o != .gt) = o.isLE := by decide
  unfold worstFirst
  simp only [hle]
  exact List.pairwise_mergeSort (fun _ _ _ => Std.TransCmp.isLE_trans)
    (fun i j => Score.order_total i.score j.score) t.indictments

theorem regroups_of_files {ms : List (ConstraintMatch S)} (h : Files t (·.charges ms)) :
    Regroups ⟨t⟩ ms := by
  have hisFor : ∀ i ∈ t.values, i.IsFor i.entity (i.entity.charges ms) := fun i hi =>
    h.isFor i.entity i (h.get?_eq_some_iff.mpr ⟨hi, rfl⟩)
  exact {
    nodup := h.nodup_entities
    mem_entities_iff := fun e => (h.mem_entities_iff e).trans EntityRef.charges_ne_nil_iff
    get?_eq_some_iff := fun e i => h.get?_eq_some_iff
    matched := fun i hi => (hisFor i hi).matched
    score := fun i hi => by rw [(hisFor i hi).matched, (hisFor i hi).score]
    constraints := fun i _ => firstSeen_eraseDups _
    worstFirst_perm := List.mergeSort_perm _ _
    worstFirst_sorted := worstFirst_ascending _
    unblamed := fun m hm i hi hmem => by
      rw [(hisFor i hi).matched, EntityRef.charges, List.mem_filter, hm] at hmem
      simp at hmem }

/-- Matches are regrouped without loss: each entity that some match indicts has one indictment, with
all the matches that indict it, in order and each once, and with the sum of their scores. It takes
that for every entity these scores can be added up one after the other; otherwise adding them
overflows. -/
theorem ofMatches_regroups [LawfulScore S] (ms : List (ConstraintMatch S)) :
    ((∀ e : EntityRef, AddUp (e.charges ms)) → ∃ t, ofMatches ms = .ok t ∧ t.Regroups ms) ∧
      ((¬ ∀ e : EntityRef, AddUp (e.charges ms)) → ofMatches ms = .error .add) := by
  have hfiling := Filing.ofMatches ms
  unfold ofMatches
  generalize ms.foldlM addMatch .empty = x at hfiling
  cases hfiling with
  | @files t h hfits =>
      exact ⟨fun _ => ⟨⟨t⟩, rfl, regroups_of_files h⟩, fun hnot => absurd hfits hnot⟩
  | overflows h => exact ⟨fun hfits => absurd hfits h, fun _ => rfl⟩

/-- A room that is indicted by its number. -/
def room (label : String) : EntityRef := ⟨"Room", label⟩

/-- What a constraint on rooms costs, and the rooms that it indicts. -/
def charge (name : String) (score : Whole) (rooms : List EntityRef) : ConstraintMatch SimpleScore :=
  ⟨⟨"", name⟩, ⟨score⟩, .ofEntities rooms, rooms⟩

/-- The first match names a room twice, the last one names none. -/
def roomMatches : List (ConstraintMatch SimpleScore) :=
  [charge "Overlap" ⟨-1, by decide, by decide⟩ [room "1", room "2", room "1"],
    charge "Capacity" ⟨-3, by decide, by decide⟩ [room "2"],
    charge "Idle" ⟨-5, by decide, by decide⟩ []]

/-- Two rewards of which the second is too much. -/
def overfull : List (ConstraintMatch SimpleScore) :=
  [charge "Used" .greatest [room "1"], charge "Used" 1 [room "1"]]

theorem ofMatches_regroups_rooms :
    (∀ e : EntityRef, AddUp (e.charges roomMatches)) ∧
      (∃ t, ofMatches roomMatches = .ok t ∧ t.Regroups roomMatches ∧
        ∃ i, t.get? (room "2") = some i ∧ i.matchCount = 2 ∧ Score.level i.score 0 = -4) ∧
      ofMatches overfull = .error .add := by
  have hfits : ∀ e : EntityRef, AddUp (e.charges roomMatches) := by
    intro e p hp k
    have hp : p ∈ (roomMatches.map (·.score)).sublists :=
      List.mem_sublists.mpr (hp.sublist.trans (List.filter_sublist.map _))
    cases k with
    | zero =>
        have hall : ∀ q ∈ (roomMatches.map (·.score)).sublists,
            Whole.InRange (Score.total q 0) := by decide
        exact hall p hp
    | succ k =>
        have hnone : Score.total p (k + 1) = 0 := by
          unfold Score.total
          rw [Pi.list_sum_apply, List.map_map]
          exact List.sum_eq_zero (List.forall_mem_map.mpr fun _ _ => rfl)
        rw [hnone]
        exact Whole.inRange_val 0
  have hover : ¬ ∀ e : EntityRef, AddUp (e.charges overfull) := fun h =>
    absurd (h (room "1") _ List.prefix_rfl 0) (by decide)
  obtain ⟨t, ht, hregroups⟩ := (ofMatches_regroups roomMatches).1 hfits
  refine ⟨hfits, ⟨t, ht, hregroups, ?_⟩, (ofMatches_regroups overfull).2 hover⟩
  have hroom : room "2" ∈ t.indictments.map (·.entity) :=
    (hregroups.mem_entities_iff _).mpr ⟨_, List.mem_cons_self, by decide⟩
  obtain ⟨i, hi, hentity⟩ := List.mem_map.mp hroom
  have hmatched := hregroups.matched i hi
  rw [hentity] at hmatched
  refine ⟨i, (hregroups.get?_eq_some_iff _ _).mpr ⟨hi, hentity⟩, ?_, ?_⟩
  · rw [Indictment.matchCount, hmatched]
    decide
  · rw [hregroups.score i hi, hmatched]
    decide

end IndictmentMap

end ConstraintScoring
