import ConstraintScoring.Score.Basic
import Mathlib.Algebra.Group.Pi.Basic
import Mathlib.Algebra.Ring.Int.Defs

/-!
# Scores as vectors of numbers

A score is determined by the numbers at its levels, and adding and subtracting scores that stay in
their range is adding and subtracting these numbers.
-/

namespace ConstraintScoring.Score

variable {S : Type} [Score S]

/-- The number at a level, zero past the last. -/
def level (s : S) (i : Nat) : Int := ((toLevels s)[i]?.map Whole.val).getD 0

theorem mapM_id_eq_some {α : Type} {xs : List (Option α)} {ys : List α}
    (h : xs.mapM id = some ys) : xs = ys.map some := by
  induction xs generalizing ys with
  | nil =>
      rw [List.mapM_nil] at h
      rw [← Option.some.inj h]
      rfl
  | cons x xs ih =>
      rw [List.mapM_cons] at h
      obtain ⟨y, hy, h⟩ := Option.bind_eq_some_iff.mp h
      obtain ⟨zs, hzs, h⟩ := Option.bind_eq_some_iff.mp h
      rw [← Option.some.inj h, List.map_cons, ← ih hzs]
      exact congrArg (· :: xs) hy

variable [LawfulScore S]

theorem level_ofLevels {ws : List Whole} (h : ws.length = (levels S).length) (i : Nat) :
    level (ofLevels ws : S) i = (ws[i]?.map Whole.val).getD 0 := by
  rw [level, LawfulScore.toLevels_ofLevels ws h]

@[simp] theorem level_zero : level (zero : S) = 0 := by
  funext i
  rw [zero, LawfulScore.ofLevels_nil, level_ofLevels (by simp)]
  by_cases hi : i < (levels S).length <;> simp [hi]

/-- Scores with the same numbers are equal. -/
theorem level_inj {a b : S} (h : level a = level b) : a = b := by
  have hlen : (toLevels a).length = (toLevels b).length := by
    rw [LawfulScore.length_toLevels, LawfulScore.length_toLevels]
  have hlevels : toLevels a = toLevels b := by
    refine List.ext_getElem hlen fun i ha hb => Whole.ext ?_
    have hi := congrFun h i
    rwa [level, level, List.getElem?_eq_getElem ha, List.getElem?_eq_getElem hb] at hi
  rw [← LawfulScore.ofLevels_toLevels a, ← LawfulScore.ofLevels_toLevels b, hlevels]

theorem level_zipLevels {step : Overflow} {f : Whole → Whole → Option Whole} {g : Int → Int → Int}
    (hf : ∀ x y w, f x y = some w → w.val = g x.val y.val) (hg : g 0 0 = 0) {a b c : S}
    (h : zipLevels step f a b = .ok c) (i : Nat) : level c i = g (level a i) (level b i) := by
  unfold zipLevels at h
  split at h
  · rename_i ws hws
    obtain rfl := Except.ok.inj h
    have hzip := mapM_id_eq_some hws
    have ha := LawfulScore.length_toLevels a
    have hb := LawfulScore.length_toLevels b
    have hlen : ws.length = (levels S).length := by
      have hlen := congrArg List.length hzip
      rw [List.length_zipWith, ha, hb, Nat.min_self, List.length_map] at hlen
      exact hlen.symm
    rw [level_ofLevels hlen]
    have hi := congrArg (·[i]?) hzip
    simp only [List.getElem?_zipWith, List.getElem?_map] at hi
    by_cases hlt : i < (levels S).length
    · have hws := List.getElem?_eq_getElem (hlen ▸ hlt : i < ws.length)
      have hla := List.getElem?_eq_getElem (ha ▸ hlt : i < (toLevels a).length)
      have hlb := List.getElem?_eq_getElem (hb ▸ hlt : i < (toLevels b).length)
      rw [hws, hla, hlb] at hi
      rw [level, level, hws, hla, hlb]
      exact hf _ _ _ (Option.some.inj hi)
    · have hge := Nat.le_of_not_lt hlt
      rw [level, level, List.getElem?_eq_none (hlen ▸ hge : ws.length ≤ i),
        List.getElem?_eq_none (ha ▸ hge : (toLevels a).length ≤ i),
        List.getElem?_eq_none (hb ▸ hge : (toLevels b).length ≤ i)]
      exact hg.symm
  · cases h

theorem level_add {a b c : S} (h : add a b = .ok c) : level c = level a + level b :=
  funext fun i => level_zipLevels (g := (· + ·))
    (fun _ _ _ hw => Whole.ofInt?_eq_some_iff.mp hw) rfl h i

theorem level_sub {a b c : S} (h : sub a b = .ok c) : level c = level a - level b :=
  funext fun i => level_zipLevels (g := (· - ·))
    (fun _ _ _ hw => Whole.ofInt?_eq_some_iff.mp hw) rfl h i

theorem level_neg {a b : S} (h : neg a = .ok b) : level b = -level a := by
  unfold neg at h
  split at h
  · rename_i ws hws
    obtain rfl := Except.ok.inj h
    have hmap : (toLevels a).map Whole.neg? = ws.map some :=
      mapM_id_eq_some (List.mapM_map.trans hws)
    have ha := LawfulScore.length_toLevels a
    have hlen : ws.length = (levels S).length := by
      have hlen := congrArg List.length hmap
      rw [List.length_map, List.length_map, ha] at hlen
      exact hlen.symm
    funext i
    rw [level_ofLevels hlen, Pi.neg_apply, level]
    have hi := congrArg (·[i]?) hmap
    simp only [List.getElem?_map] at hi
    by_cases hlt : i < (levels S).length
    · rw [List.getElem?_eq_getElem (hlen ▸ hlt : i < ws.length),
        List.getElem?_eq_getElem (ha ▸ hlt : i < (toLevels a).length)] at hi ⊢
      exact Whole.ofInt?_eq_some_iff.mp (Option.some.inj hi)
    · have hge := Nat.le_of_not_lt hlt
      rw [List.getElem?_eq_none (hlen ▸ hge : ws.length ≤ i),
        List.getElem?_eq_none (ha ▸ hge : (toLevels a).length ≤ i)]
      rfl
  · cases h

end ConstraintScoring.Score
