import ConstraintScoring.Domain
import Mathlib.Data.List.Forall2

/-!
# Equality of cells, rows and keys

With a lawful order on cells, being the same is an equivalence of cells, and so it is of rows, of
keys and of the identities of facts.
-/

namespace ConstraintScoring

variable {V : Type} [Cell V]

namespace Cell

theorem same_iff {a b : V} : same a b = true ↔ compare a b = .eq := by
  simp [same]

theorem sameAll_iff {as bs : List V} :
    sameAll as bs = true ↔ List.Forall₂ (fun a b => same a b = true) as bs := by
  induction as generalizing bs with
  | nil => cases bs <;> simp [sameAll]
  | cons a as ih => cases bs <;> simp [sameAll, ih]

variable [Std.TransOrd V]

theorem compare_self (a : V) : compare a a = .eq := Std.ReflCmp.compare_self

@[simp] theorem same_refl (a : V) : same a a = true := same_iff.mpr (compare_self a)

theorem same_symm {a b : V} (h : same a b = true) : same b a = true :=
  same_iff.mpr (Std.OrientedCmp.eq_symm (same_iff.mp h))

theorem same_trans {a b c : V} (hab : same a b = true) (hbc : same b c = true) :
    same a c = true :=
  same_iff.mpr (Std.TransCmp.eq_trans (same_iff.mp hab) (same_iff.mp hbc))

/-- Cells that are the same compare alike with any cell. -/
theorem compare_congr {a a' b b' : V} (ha : same a a' = true) (hb : same b b' = true) :
    compare a b = compare a' b' := by
  rw [Std.TransCmp.congr_left (same_iff.mp ha), Std.TransCmp.congr_right (same_iff.mp hb)]

@[simp] theorem sameAll_refl (as : List V) : sameAll as as = true :=
  sameAll_iff.mpr (List.forall₂_same.mpr fun a _ => same_refl a)

theorem sameAll_symm {as bs : List V} (h : sameAll as bs = true) : sameAll bs as = true :=
  sameAll_iff.mpr ((sameAll_iff.mp h).flip.imp fun _ _ => same_symm)

theorem sameAll_trans {as bs cs : List V} (hab : sameAll as bs = true)
    (hbc : sameAll bs cs = true) : sameAll as cs = true := by
  induction as generalizing bs cs with
  | nil =>
      cases bs with
      | nil => exact hbc
      | cons b bs => simp [sameAll] at hab
  | cons a as ih =>
      cases bs with
      | nil => simp [sameAll] at hab
      | cons b bs =>
          cases cs with
          | nil => simp [sameAll] at hbc
          | cons c cs =>
              simp only [sameAll, Bool.and_eq_true] at hab hbc ⊢
              exact ⟨same_trans hab.1 hbc.1, ih hab.2 hbc.2⟩

omit [Std.TransOrd V] in
theorem sameAll_append {as bs cs ds : List V} (hab : sameAll as bs = true)
    (hcd : sameAll cs ds = true) : sameAll (as ++ cs) (bs ++ ds) = true :=
  sameAll_iff.mpr (List.rel_append (sameAll_iff.mp hab) (sameAll_iff.mp hcd))

omit [Std.TransOrd V] in
theorem sameAll_length {as bs : List V} (h : sameAll as bs = true) : as.length = bs.length :=
  (sameAll_iff.mp h).length_eq

end Cell

variable [Std.TransOrd V]

instance : EquivBEq (Key V) where
  rfl := Cell.sameAll_refl _
  symm := Cell.sameAll_symm
  trans := Cell.sameAll_trans

omit [Std.TransOrd V] in
theorem factKey_beq_iff {a b : FactKey V} :
    (a == b) = true ↔ a.type = b.type ∧ Cell.same a.id b.id = true := by
  change (a.type == b.type && Cell.same a.id b.id) = true ↔ _
  simp

instance : EquivBEq (FactKey V) where
  rfl := factKey_beq_iff.mpr ⟨rfl, Cell.same_refl _⟩
  symm h := by
    obtain ⟨htype, hid⟩ := factKey_beq_iff.mp h
    exact factKey_beq_iff.mpr ⟨htype.symm, Cell.same_symm hid⟩
  trans h h' := by
    obtain ⟨htype, hid⟩ := factKey_beq_iff.mp h
    obtain ⟨htype', hid'⟩ := factKey_beq_iff.mp h'
    exact factKey_beq_iff.mpr ⟨htype.trans htype', Cell.same_trans hid hid'⟩

end ConstraintScoring
