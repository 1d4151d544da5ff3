import ConstraintScoring.Proofs.Score.Levels
import ConstraintScoring.Proofs.Score.Scaling

/-!
# Sums of scores

Two scores have a sum just if their numbers add up to numbers in range at every level. So scores can
be added one after the other just if every running sum is in range. Scores are in a total order.
-/

namespace ConstraintScoring

instance : Std.TransOrd Whole where
  eq_swap {_ _} := Std.OrientedOrd.eq_swap (α := Int)
  isLE_trans {_ _ _} := Std.TransOrd.isLE_trans (α := Int)

theorem Whole.add?_of_inRange {v w : Whole} (h : InRange (v.val + w.val)) :
    v.add? w = some (clamp (v.val + w.val)) := by
  obtain ⟨sum, hsum, hval⟩ := ofInt?_of_inRange h
  rw [← hval, clamp_val]
  exact hsum

namespace Score

variable {S : Type} [Score S]

instance : Std.TransCmp (order : S → S → Ordering) where
  eq_swap {_ _} := @Std.OrientedCmp.eq_swap _ (List.compareLex compare) _ _ _
  isLE_trans {_ _ _} := @Std.TransCmp.isLE_trans _ (List.compareLex compare) _ _ _ _

theorem order_total (s t : S) : ((order s t).isLE || (order t s).isLE) = true := by
  have hswap : order t s = (order s t).swap := Std.OrientedCmp.eq_swap
  rw [hswap]
  cases order s t <;> rfl

theorem mapM_id_map_some {α : Type} (xs : List α) : (xs.map some).mapM id = some xs := by
  rw [List.mapM_map]
  exact (List.mapM_pure (f := id)).trans (congrArg some (List.map_id xs))

theorem inRange_level (s : S) (k : Nat) : Whole.InRange (level s k) := by
  unfold level
  cases (toLevels s)[k]? with
  | none => exact Whole.inRange_val 0
  | some w => exact w.inRange_val

/-- The sum of some scores, level by level. -/
def total (ss : List S) : Nat → Int := (ss.map level).sum

/-- Every running sum of the scores is in range at every level. -/
def SumsFit (ss : List S) : Prop := ∀ p, p <+: ss → ∀ k, Whole.InRange (total p k)

theorem total_concat (ss : List S) (s : S) : total (ss ++ [s]) = total ss + level s := by
  simp [total]

theorem sumsFit_nil : SumsFit ([] : List S) := by
  intro p hp k
  obtain rfl := List.prefix_nil.mp hp
  exact Whole.inRange_val 0

theorem sumsFit_concat {ss : List S} {s : S} :
    SumsFit (ss ++ [s]) ↔ SumsFit ss ∧ ∀ k, Whole.InRange (total ss k + level s k) := by
  have hlast : ∀ k, total (ss ++ [s]) k = total ss k + level s k := fun k =>
    congrFun (total_concat ss s) k
  constructor
  · intro h
    refine ⟨fun p hp => h p (hp.trans (List.prefix_append ss [s])), fun k => ?_⟩
    rw [← hlast]
    exact h _ List.prefix_rfl k
  · rintro ⟨hinit, hsum⟩ p hp
    rcases List.prefix_concat_iff.mp hp with rfl | hp
    · intro k
      rw [hlast]
      exact hsum k
    · exact hinit p hp

variable {a b : S}

theorem add_of_inRange (h : ∀ k, Whole.InRange (level a k + level b k)) :
    ∃ c, add a b = .ok c := by
  have hzip : List.zipWith Whole.add? (toLevels a) (toLevels b) =
      (List.zipWith (fun v w => Whole.clamp (v.val + w.val))
        (toLevels a) (toLevels b)).map some := by
    refine List.ext_getElem? fun k => ?_
    rw [List.getElem?_map, List.getElem?_zipWith, List.getElem?_zipWith]
    have hk := h k
    unfold level at hk
    cases hv : (toLevels a)[k]? with
    | none => rfl
    | some v =>
        cases hw : (toLevels b)[k]? with
        | none => rfl
        | some w =>
            rw [hv, hw] at hk
            exact congrArg some (Whole.add?_of_inRange hk)
  unfold add zipLevels
  rw [hzip, mapM_id_map_some]
  exact ⟨_, rfl⟩

variable [LawfulScore S]

theorem add_of_not_inRange {k : Nat} (h : ¬ Whole.InRange (level a k + level b k)) :
    add a b = .error .add := by
  cases hadd : add a b with
  | ok c =>
      have hc := inRange_level c k
      rw [level_add hadd] at hc
      exact absurd hc h
  | error step =>
      unfold add zipLevels at hadd
      split at hadd
      · cases hadd
      · exact hadd.symm

end Score

end ConstraintScoring
