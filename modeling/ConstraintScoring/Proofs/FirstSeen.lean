import Mathlib.Data.List.Basic

/-!
# Members of a list as they are first seen

Leaving out of a list what came before names every member once, in the order of the first places.
-/

namespace ConstraintScoring

variable {α : Type} [DecidableEq α] {as bs : List α}

/-- The second list names the members of the first one, in the order of their first places. -/
structure FirstSeen (as bs : List α) : Prop where
  mem_iff : ∀ a, a ∈ bs ↔ a ∈ as
  ordered : bs.Pairwise fun a b => as.idxOf a < as.idxOf b

/-- No member is named twice, since it has but one first place. -/
theorem FirstSeen.nodup (h : FirstSeen as bs) : bs.Nodup :=
  h.ordered.imp fun hlt heq => Nat.ne_of_lt hlt (congrArg as.idxOf heq)

/-- Leaving elements out does not change which of two that stay comes first. -/
theorem idxOf_lt_of_filter {p : α → Bool} {a b : α} (hb : p b = true)
    (h : (as.filter p).idxOf a < (as.filter p).idxOf b) : as.idxOf a < as.idxOf b := by
  induction as with
  | nil => exact absurd h (Nat.lt_irrefl _)
  | cons c as ih =>
      by_cases hca : c = a
      · have hcb : c ≠ b := by
          rintro rfl
          exact absurd (hca ▸ h) (Nat.lt_irrefl _)
        rw [List.idxOf_cons_eq _ hca, List.idxOf_cons_ne _ hcb]
        exact Nat.succ_pos _
      · by_cases hc : p c = true
        · rw [List.filter_cons_of_pos hc] at h
          have hcb : c ≠ b := by
            rintro rfl
            rw [List.idxOf_cons_self] at h
            exact Nat.not_lt_zero _ h
          rw [List.idxOf_cons_ne _ hca, List.idxOf_cons_ne _ hcb] at h ⊢
          exact Nat.succ_lt_succ (ih (Nat.lt_of_succ_lt_succ h))
        · rw [List.filter_cons_of_neg hc] at h
          have hcb : c ≠ b := fun hcb => hc (hcb ▸ hb)
          rw [List.idxOf_cons_ne _ hca, List.idxOf_cons_ne _ hcb]
          exact Nat.succ_lt_succ (ih h)

theorem firstSeen_eraseDups (as : List α) : FirstSeen as as.eraseDups := by
  refine ⟨fun a => List.mem_eraseDups, ?_⟩
  -- What is left of the tail is shorter, but no tail of the list.
  induction h : as.length using Nat.strongRecOn generalizing as with
  | ind n ih =>
      cases as with
      | nil => exact .nil
      | cons a as =>
          have hshort : (as.filter fun b => !b == a).length < n :=
            h ▸ Nat.lt_succ_of_le (List.length_filter_le _ as)
          have hother : ∀ b ∈ (as.filter fun b => !b == a).eraseDups, (!b == a) = true :=
            fun b hb => (List.mem_filter.mp (List.mem_eraseDups.mp hb)).2
          have hne : ∀ b, (!b == a) = true → a ≠ b := by
            rintro b hb rfl
            simp at hb
          rw [List.eraseDups_cons, List.pairwise_cons]
          refine ⟨fun b hb => ?_, (ih _ hshort _ rfl).imp_of_mem fun {b c} hb hc hlt => ?_⟩
          · rw [List.idxOf_cons_self, List.idxOf_cons_ne _ (hne b (hother b hb))]
            exact Nat.succ_pos _
          · rw [List.idxOf_cons_ne _ (hne b (hother b hb)),
              List.idxOf_cons_ne _ (hne c (hother c hc))]
            exact Nat.succ_lt_succ (idxOf_lt_of_filter (hother c hc) hlt)

end ConstraintScoring
