import ConstraintScoring.Number.WholeText
import ConstraintScoring.Proofs.Outcome
import Mathlib.Data.Int.Order.Basic

/-!
# Whole numbers are read back from their texts

A whole number is read from digits, with a sign in front of them or without, if the number that the
digits make is in range; no other text is read.
-/

namespace ConstraintScoring

variable {cs : List Char}

/-- A text of decimal digits. -/
def Text.Digits (cs : List Char) : Prop := ∀ c ∈ cs, c.isDigit = true

theorem Text.digits_toDigits (n : Nat) : Text.Digits (Nat.toDigits 10 n) :=
  fun _ hc => Nat.isDigit_of_mem_toDigits (by decide) (by decide) hc

theorem Text.le_ofDigitChars (cs : List Char) (n : Nat) : n ≤ Nat.ofDigitChars 10 cs n := by
  rw [Nat.ofDigitChars_eq_ofDigitChars_zero]
  exact Nat.le_trans (Nat.le_mul_of_pos_left n (Nat.pow_pos (by decide))) (Nat.le_add_right _ _)

/-- Digits with a sign in front of them, or without. -/
inductive Text.Numeral : Bool → List Char → List Char → Prop
  | minus (digits : List Char) : Numeral true digits ('-' :: digits)
  | plus (digits : List Char) : Numeral false digits ('+' :: digits)
  | bare (digits : List Char) : Numeral false digits digits

namespace Whole

/-- A number with its sign apart. -/
def signed (negative : Bool) (n : Nat) : Int := if negative then -n else n

/-- Numbers of one sign are in range together with greater ones. -/
theorem signed_range {negative : Bool} {m n : Nat} {w : Whole} (hw : w.val = signed negative n)
    (h : m ≤ n) : -9223372036854775808 ≤ signed negative m ∧
      signed negative m ≤ 9223372036854775807 := by
  have hmin := w.min_le
  have hmax := w.le_max
  rw [hw] at hmin hmax
  cases negative
  all_goals
    simp only [signed, if_true, if_false, Bool.false_eq_true] at hmin hmax ⊢
    omega

theorem pushDigit_eq {negative : Bool} {k : Nat} {n m : Whole} {c : Char} (hc : c.isDigit)
    (hn : n.val = signed negative k) (hm : m.val = signed negative (10 * k + (c.toNat - '0'.toNat))) :
    pushDigit negative n c = .ok m := by
  obtain ⟨hlow, hhigh⟩ := Char.isDigit_iff_toNat.mp hc
  have hrange : '0' ≤ c ∧ c ≤ '9' := ⟨hlow, hhigh⟩
  have hnext : ofInt? (if negative then n.val * 10 - (c.toNat - '0'.toNat : Int)
      else n.val * 10 + (c.toNat - '0'.toNat : Int)) = some m := by
    rw [ofInt?_eq_some_iff, hm, hn]
    unfold signed
    split <;> omega
  unfold pushDigit
  rw [if_pos hrange]
  simp only [hnext]

/-- Digits are pushed one by one as long as the number they make is in range. -/
theorem foldlM_pushDigit {negative : Bool} {k : Nat} {n w : Whole} (hcs : Text.Digits cs)
    (hn : n.val = signed negative k) (hw : w.val = signed negative (Nat.ofDigitChars 10 cs k)) :
    cs.foldlM (pushDigit negative) n = .ok w := by
  induction cs generalizing n k with
  | nil => exact congrArg Except.ok (Whole.ext (hn.trans hw.symm))
  | cons c cs ih =>
      obtain ⟨hc, hcs⟩ := List.forall_mem_cons.mp hcs
      rw [Nat.ofDigitChars_cons] at hw
      have hle := Text.le_ofDigitChars cs (10 * k + (c.toNat - '0'.toNat))
      have hrange := signed_range hw hle
      rw [List.foldlM_cons, pushDigit_eq hc hn (m := ⟨_, hrange.1, hrange.2⟩) rfl]
      exact ih hcs rfl hw

/-- Only a digit is pushed. -/
theorem of_pushDigit {negative : Bool} {k : Nat} {n m : Whole} {c : Char}
    (hn : n.val = signed negative k) (h : pushDigit negative n c = .ok m) :
    c.isDigit ∧ m.val = signed negative (10 * k + (c.toNat - '0'.toNat)) := by
  unfold pushDigit at h
  split at h
  · rename_i hrange
    have hlow : '0'.toNat ≤ c.toNat := hrange.1
    refine ⟨Char.isDigit_iff_toNat.mpr hrange, ?_⟩
    dsimp only at h
    cases hnext : ofInt? (if negative then n.val * 10 - (c.toNat - '0'.toNat : Int)
        else n.val * 10 + (c.toNat - '0'.toNat : Int)) with
    | none =>
        rw [hnext] at h
        cases h
    | some next =>
        rw [hnext] at h
        obtain rfl := Except.ok.inj h
        rw [ofInt?_eq_some_iff.mp hnext, hn]
        unfold signed
        split <;> omega
  · cases h

theorem of_foldlM_pushDigit {negative : Bool} {k : Nat} {n w : Whole}
    (hn : n.val = signed negative k) (h : cs.foldlM (pushDigit negative) n = .ok w) :
    Text.Digits cs ∧ w.val = signed negative (Nat.ofDigitChars 10 cs k) := by
  induction cs generalizing n k with
  | nil =>
      obtain rfl := Except.ok.inj h
      exact ⟨nofun, hn⟩
  | cons c cs ih =>
      rw [List.foldlM_cons] at h
      obtain ⟨m, hm, h⟩ := Outcome.bind_eq_ok.mp h
      obtain ⟨hc, hmval⟩ := of_pushDigit hn hm
      obtain ⟨hcs, hw⟩ := ih hmval h
      rw [Nat.ofDigitChars_cons]
      exact ⟨List.forall_mem_cons.mpr ⟨hc, hcs⟩, hw⟩

/-- Some digits are read if the number they make is in range. -/
theorem readDigits_eq_ok_iff {negative : Bool} {w : Whole} : readDigits negative cs = .ok w ↔
    cs ≠ [] ∧ Text.Digits cs ∧ w.val = signed negative (Nat.ofDigitChars 10 cs 0) := by
  have hzero : (0 : Whole).val = signed negative 0 := by cases negative <;> rfl
  unfold readDigits
  constructor
  · intro h
    split at h
    · cases h
    · rename_i hne
      exact ⟨fun hnil => hne (hnil ▸ rfl), of_foldlM_pushDigit hzero h⟩
  · rintro ⟨hne, hcs, hw⟩
    rw [if_neg (by simpa using hne)]
    exact foldlM_pushDigit hcs hzero hw

theorem readDigits_toDigits {negative : Bool} {n : Nat} {w : Whole}
    (hw : w.val = signed negative n) : readDigits negative (Nat.toDigits 10 n) = .ok w := by
  rw [readDigits_eq_ok_iff, Nat.ofDigitChars_ten_toDigits]
  exact ⟨Nat.toDigits_ne_nil, Text.digits_toDigits n, hw⟩

/-- A text that begins with a digit has no sign. -/
theorem read_of_digit {c : Char} (hc : c.isDigit) : read (c :: cs) = readDigits false (c :: cs) := by
  unfold read
  split
  · contradiction
  · rename_i h
    obtain ⟨rfl, -⟩ := List.cons.inj h
    cases hc
  · rename_i h
    obtain ⟨rfl, -⟩ := List.cons.inj h
    cases hc
  · rfl

/-- A whole number is read from some digits with a sign or without, and from no other text. -/
theorem read_eq_ok_iff {w : Whole} : read cs = .ok w ↔
    ∃ negative digits, Text.Numeral negative digits cs ∧ digits ≠ [] ∧ Text.Digits digits ∧
      w.val = signed negative (Nat.ofDigitChars 10 digits 0) := by
  constructor
  · intro h
    unfold read at h
    split at h
    · cases h
    · rename_i digits
      exact ⟨true, digits, .minus digits, readDigits_eq_ok_iff.mp h⟩
    · rename_i digits
      exact ⟨false, digits, .plus digits, readDigits_eq_ok_iff.mp h⟩
    · exact ⟨false, cs, .bare cs, readDigits_eq_ok_iff.mp h⟩
  · rintro ⟨negative, digits, hnumeral, hread⟩
    cases hnumeral with
    | minus => exact readDigits_eq_ok_iff.mpr hread
    | plus => exact readDigits_eq_ok_iff.mpr hread
    | bare =>
        obtain ⟨c, rest, rfl⟩ := List.exists_cons_of_ne_nil hread.1
        rw [read_of_digit (hread.2.1 c List.mem_cons_self)]
        exact readDigits_eq_ok_iff.mpr hread

/-- The number that a text in range stands for is small. -/
theorem le_of_signed {negative : Bool} {n : Nat} {w : Whole} (h : w.val = signed negative n) :
    n ≤ 9223372036854775808 := by
  have hlow := w.min_le
  have hhigh := w.le_max
  rw [h] at hlow hhigh
  cases negative <;> simp only [signed, if_true, if_false, Bool.false_eq_true] at hlow hhigh <;>
    omega

theorem text_toList (w : Whole) : w.text.toList =
    if 0 ≤ w.val then Nat.toDigits 10 w.val.toNat else '-' :: Nat.toDigits 10 (-w.val).toNat := by
  unfold text
  rw [Int.toString_eq_repr, Int.repr_eq_if]
  split
  · exact Nat.toList_repr
  · rw [String.toList_append, Nat.toList_repr]
    rfl

theorem read_text (w : Whole) : read w.text.toList = .ok w := by
  rw [text_toList]
  split
  · rename_i hw
    have hdigits := Text.digits_toDigits w.val.toNat
    have hread : readDigits false (Nat.toDigits 10 w.val.toNat) = .ok w :=
      readDigits_toDigits (by unfold signed; simp; omega)
    cases htext : Nat.toDigits 10 w.val.toNat with
    | nil => exact absurd htext Nat.toDigits_ne_nil
    | cons c cs =>
        rw [htext] at hdigits hread
        rw [read_of_digit (hdigits c List.mem_cons_self), hread]
  · rename_i hw
    exact readDigits_toDigits (by unfold signed; simp; omega)

end Whole

end ConstraintScoring
