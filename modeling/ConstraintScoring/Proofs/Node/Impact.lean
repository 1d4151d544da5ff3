import ConstraintScoring.Node.Score
import ConstraintScoring.Proofs.Score.Products

/-!
# The impact of a match

The weight of a constraint is scaled by the weight of a match, and no level leaves its range. A reward
counts as much; a penalty counts the negation. The range has one more number below zero than above
it, so a level that scaling left at its least has no negation: only there does the impact overflow.
-/

namespace ConstraintScoring

namespace MatchWeight

/-- The weight as a number. -/
def toRat : MatchWeight → Rat
  | whole n => n.val
  | decimal d => d.toRat

/-- Written as a decimal, the product with the weight is a half that the exact product falls short
of; whole weights have no such products. -/
def FallsShort (level : Whole) : MatchWeight → Prop
  | whole _ => False
  | decimal d => level.FallsShort d

end MatchWeight

namespace Whole

/-- What scaling makes of a level: the exact product, rounded to the nearest whole number and kept in
range, or one further from zero where it falls short of a half. -/
def Scaled (w : MatchWeight) (level scaled : Whole) : Prop :=
  (¬ w.FallsShort level → scaled = clamp (nearestWhole (level.val * w.toRat))) ∧
    (w.FallsShort level → scaled = clamp (nearestWhole (level.val * w.toRat) +
      if level.val * w.toRat < 0 then -1 else 1))

theorem scaled_whole (level n : Whole) : level.Scaled (.whole n) (level.timesWhole n) := by
  refine ⟨fun _ => ?_, nofun⟩
  unfold MatchWeight.toRat timesWhole
  rw [← Int.cast_mul, nearestWhole_intCast]

theorem scaled_decimal (level : Whole) (d : Decimal) :
    level.Scaled (.decimal d) (level.timesDecimal d) := by
  obtain ⟨hrounded, hastray⟩ := level.timesDecimal_spec d
  exact ⟨hrounded, fun h => (hastray h).2⟩

theorem neg?_least : neg? least = none := by decide

theorem neg?_of_ne_least {w : Whole} (h : w ≠ least) : neg? w = some (clamp (-w.val)) := by
  have hlow := w.min_le
  have hhigh := w.le_max
  have hne : w.val ≠ -9223372036854775808 := fun hw => h (ext hw)
  apply ofInt?_eq_some_iff.mpr
  rw [val_clamp]
  omega

theorem mapM_neg?_of_mem {ws : List Whole} (h : least ∈ ws) : ws.mapM neg? = none := by
  induction ws with
  | nil => cases h
  | cons w ws ih =>
      rw [List.mapM_cons]
      rcases List.mem_cons.mp h with rfl | h
      · rw [neg?_least]
        rfl
      · rw [ih h]
        cases neg? w <;> rfl

theorem mapM_neg?_of_not_mem {ws : List Whole} (h : least ∉ ws) :
    ws.mapM neg? = some (ws.map fun w => clamp (-w.val)) := by
  induction ws with
  | nil => rfl
  | cons w ws ih =>
      obtain ⟨hw, hws⟩ := not_or.mp (mt List.mem_cons.mpr h)
      rw [List.mapM_cons, neg?_of_ne_least (Ne.symm hw), ih hws]
      rfl

end Whole

namespace Score

variable {S : Type} [Score S] [LawfulScore S]

theorem timesWeight_scaled (s : S) (w : MatchWeight) :
    List.Forall₂ (Whole.Scaled w) (toLevels s) (toLevels (timesWeight s w)) := by
  cases w with
  | whole n =>
      rw [timesWeight_whole, timesWhole_eq_mapLevels]
      exact forall₂_mapLevels (fun level => level.scaled_whole n) s
  | decimal d => exact forall₂_mapLevels (fun level => level.scaled_decimal d) s

omit [LawfulScore S] in
theorem neg_of_mem {s : S} (h : .least ∈ toLevels s) : neg s = .error .negate := by
  unfold neg
  rw [Whole.mapM_neg?_of_mem h]

theorem neg_of_not_mem {s : S} (h : .least ∉ toLevels s) :
    ∃ t, neg s = .ok t ∧ toLevels t = (toLevels s).map fun level => .clamp (-level.val) := by
  refine ⟨_, by unfold neg; rw [Whole.mapM_neg?_of_not_mem h], ?_⟩
  apply LawfulScore.toLevels_ofLevels
  rw [List.length_map, LawfulScore.length_toLevels]

end Score

namespace ScoreNode

variable {V S : Type} [Score S] {n : ScoreNode V S} {row : Row V} {w : MatchWeight}

theorem impactOf_eq (hw : n.matchWeight row = .ok w) :
    n.impactOf row = asFault (signed n.impact (Score.timesWeight n.weight w)) := by
  unfold impactOf
  rw [hw]
  rfl

/-- Scaling keeps every level of the impact in range, and so does the negation of a penalty, unless
it negates a level that scaling left at the least number there is: then, and only then, the impact
overflows. -/
theorem impactOf_saturates [LawfulScore S] (hw : n.matchWeight row = .ok w) :
    List.Forall₂ (Whole.Scaled w) (Score.toLevels n.weight)
        (Score.toLevels (Score.timesWeight n.weight w)) ∧
      (n.impact = .reward → n.impactOf row = .ok (Score.timesWeight n.weight w)) ∧
      (n.impact = .penalty → .least ∉ Score.toLevels (Score.timesWeight n.weight w) →
        ∃ a, n.impactOf row = .ok a ∧ Score.toLevels a =
          (Score.toLevels (Score.timesWeight n.weight w)).map fun level => .clamp (-level.val)) ∧
      (n.impact = .penalty → .least ∈ Score.toLevels (Score.timesWeight n.weight w) →
        n.impactOf row = .error (.overflow .negate)) := by
  rw [impactOf_eq hw]
  refine ⟨Score.timesWeight_scaled n.weight w, fun himpact => ?_, fun himpact hleast => ?_,
    fun himpact hleast => ?_⟩
  · rw [himpact]
    rfl
  · obtain ⟨a, ha, hlevels⟩ := Score.neg_of_not_mem hleast
    refine ⟨a, ?_, hlevels⟩
    rw [himpact, signed, ha]
    rfl
  · rw [himpact, signed, Score.neg_of_mem hleast]
    rfl

/-- A penalty of two for each match, where a match weighs minus five times ten to the eighteenth: twice
as much is below the range. -/
def steep : ScoreNode Nat SimpleScore where
  constraint := 0
  impact := .penalty
  weight := ⟨⟨2, by decide, by decide⟩⟩
  weigher := some fun _ => .ok (.whole ⟨-5000000000000000000, by decide, by decide⟩)
  impacts := .empty

theorem impactOf_saturates_steep :
    steep.matchWeight [] = .ok (.whole ⟨-5000000000000000000, by decide, by decide⟩) ∧
      steep.impactOf [] = .error (.overflow .negate) := by
  have hw : steep.matchWeight [] = .ok (.whole ⟨-5000000000000000000, by decide, by decide⟩) := rfl
  obtain ⟨-, -, -, hoverflow⟩ := impactOf_saturates hw
  exact ⟨hw, hoverflow rfl (by decide)⟩

end ScoreNode

end ConstraintScoring
