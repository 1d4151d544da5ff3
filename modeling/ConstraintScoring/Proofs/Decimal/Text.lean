import ConstraintScoring.Decimal.Read
import ConstraintScoring.Proofs.Number.WholeText
import Mathlib.Algebra.Order.Field.Rat

/-!
# Decimals are read back from their texts

The digits of a decimal are read one by one, first those in front of the point and then its decimal
places. Only a zero with a sign is not read back as it was. Digits without a point are read as the
whole number they make, as long as a decimal has room for it.
-/

namespace ConstraintScoring.Decimal

open Text (Digits)

variable {cs rest : List Char}

theorem digit?_of_isDigit {c : Char} (hc : c.isDigit) : digit? c = some (c.toNat - '0'.toNat) := by
  obtain ⟨hlow, hhigh⟩ := Char.isDigit_iff_toNat.mp hc
  have hrange : '0' ≤ c ∧ c ≤ '9' := ⟨hlow, hhigh⟩
  exact if_pos hrange

namespace Scan

/-- What has been read once the given digits have been read as well. -/
def pushed (s : Scan) (cs : List Char) : Scan :=
  { s with
    digits := Nat.ofDigitChars 10 cs s.digits
    places := if s.point then s.places + cs.length else s.places
    started := s.started || !cs.isEmpty }

/-- Digits are read as long as the number and its places have room for them. -/
theorem run_digits {s : Scan} (hcs : Digits cs)
    (hlt : Nat.ofDigitChars 10 cs s.digits < 79228162514264337593543950336)
    (hplaces : if s.point then s.places + cs.length ≤ 28 else s.places = 0) :
    s.run (cs ++ rest) = (s.pushed cs).run rest := by
  induction cs generalizing s with
  | nil =>
      have hsame : s.pushed [] = s := by
        unfold pushed
        cases s
        simp
      rw [hsame]
      rfl
  | cons c cs ih =>
      obtain ⟨hc, hcs⟩ := List.forall_mem_cons.mp hcs
      rw [Nat.ofDigitChars_cons, Nat.mul_comm] at hlt
      have hroom : s.digits * 10 + (c.toNat - '0'.toNat) < 2 ^ (96 : Nat) :=
        Nat.lt_of_le_of_lt (Text.le_ofDigitChars cs _) hlt
      have hopen : (s.point && s.started && decide (28 ≤ s.places)) = false := by
        cases hpoint : s.point with
        | false => rfl
        | true =>
            rw [hpoint, if_pos rfl, List.length_cons] at hplaces
            simp; omega
      have hpushed : (s.push (c.toNat - '0'.toNat)).pushed cs = s.pushed (c :: cs) := by
        unfold pushed push
        rw [Nat.ofDigitChars_cons, Nat.mul_comm]
        cases hpoint : s.point
        · simp_all
        · simp_all
          omega
      rw [List.cons_append, run, hopen, if_neg nofun, digit?_of_isDigit hc]
      simp only
      rw [if_pos hroom, ih hcs, hpushed]
      · exact hlt
      · unfold push
        cases hpoint : s.point
        · simp_all
        · simp_all
          omega

/-- The point between the digits of a number and its decimal places. -/
theorem run_point {s : Scan} (hs : s.point = false) :
    s.run ('.' :: rest) = ({ s with point := true } : Scan).run rest := by
  rw [run, hs]
  rfl

/-- In front of a point, digits that make too large a number are refused. -/
theorem run_tooMany {s : Scan} (hcs : Digits cs) (hs : s.point = false)
    (hroom : s.digits < 79228162514264337593543950336)
    (hlarge : 79228162514264337593543950336 ≤ Nat.ofDigitChars 10 cs s.digits) :
    s.run cs = .error .tooManyDigits := by
  induction cs generalizing s with
  | nil => exact absurd hlarge (Nat.not_le.mpr hroom)
  | cons c cs ih =>
      obtain ⟨hc, hcs⟩ := List.forall_mem_cons.mp hcs
      rw [Nat.ofDigitChars_cons, Nat.mul_comm] at hlarge
      rw [run, hs, Bool.false_and, Bool.false_and, if_neg nofun, digit?_of_isDigit hc]
      simp only
      split
      · rename_i hnext
        exact ih (s := s.push (c.toNat - '0'.toNat)) hcs hs hnext hlarge
      · rfl

end Scan

/-- The digits of a number, with zeros in front of them where the decimal places need them. -/
def placedDigits (n scale : Nat) : List Char := padLeft (scale + 1) (Nat.toDigits 10 n)

theorem placedDigits_digits (n scale : Nat) : Digits (placedDigits n scale) := by
  intro c hc
  rcases List.mem_append.mp hc with hc | hc
  · rw [List.eq_of_mem_replicate hc]
    rfl
  · exact Text.digits_toDigits n c hc

theorem placedDigits_value (n scale : Nat) :
    Nat.ofDigitChars 10 (placedDigits n scale) 0 = n := by
  unfold placedDigits padLeft
  rw [Nat.ofDigitChars_append, Nat.ofDigitChars_replicate_zero, Nat.mul_zero,
    Nat.ofDigitChars_ten_toDigits]

theorem lt_length_placedDigits (n scale : Nat) : scale < (placedDigits n scale).length := by
  unfold placedDigits padLeft
  rw [List.length_append, List.length_replicate]
  omega

/-- The digits of a decimal are cut into those before the point and its places. -/
theorem digitsText_eq (n scale : Nat) : ∃ whole places, Digits whole ∧ Digits places ∧
    whole ≠ [] ∧ places.length = scale ∧
    Nat.ofDigitChars 10 places (Nat.ofDigitChars 10 whole 0) = n ∧
    digitsText n scale = if scale = 0 then whole else whole ++ '.' :: places := by
  have hlt := lt_length_placedDigits n scale
  have hdigits := placedDigits_digits n scale
  refine ⟨(placedDigits n scale).take ((placedDigits n scale).length - scale),
    (placedDigits n scale).drop ((placedDigits n scale).length - scale),
    fun c hc => hdigits c (List.mem_of_mem_take hc), fun c hc => hdigits c (List.mem_of_mem_drop hc),
    ?_, ?_, ?_, ?_⟩
  · rw [← List.length_pos_iff, List.length_take]
    omega
  · rw [List.length_drop]
    omega
  · rw [← Nat.ofDigitChars_append, List.take_append_drop, placedDigits_value]
  · unfold digitsText
    by_cases hscale : scale = 0
    · simp only [if_pos hscale]
      rw [hscale, Nat.sub_zero, List.take_length]
      rfl
    · simp only [if_neg hscale]
      rfl

theorem run_digitsText {negative : Bool} {n scale : Nat} (hscale : scale ≤ 28)
    (hn : n < 79228162514264337593543950336) :
    Scan.run { negative } (digitsText n scale) =
      Scan.finish { negative, digits := n, places := scale, point := scale != 0, started := true } := by
  obtain ⟨whole, places, hwhole, hplaces, hne, hlength, hvalue, htext⟩ := digitsText_eq n scale
  have hle := Text.le_ofDigitChars places (Nat.ofDigitChars 10 whole 0)
  have hstarted : whole.isEmpty = false := by simpa using hne
  have hfirst : ∀ rest, Scan.run { negative } (whole ++ rest) =
      Scan.run { negative, digits := Nat.ofDigitChars 10 whole 0, started := true } rest := by
    intro rest
    rw [Scan.run_digits hwhole (by simp only; omega) (by simp)]
    unfold Scan.pushed
    simp [hstarted]
  rw [htext]
  split
  · rename_i hzero
    have hnil : places = [] := List.length_eq_zero_iff.mp (hlength.trans hzero)
    rw [hnil, Nat.ofDigitChars_nil] at hvalue
    have hwholes := hfirst []
    rw [List.append_nil] at hwholes
    rw [hwholes, hvalue, hzero]
    rfl
  · rename_i hpoint
    have hplaced : Scan.run ⟨negative, Nat.ofDigitChars 10 whole 0, 0, true, true⟩ (places ++ []) =
        _ := Scan.run_digits hplaces (by simp only; omega) (by simp; omega)
    rw [List.append_nil] at hplaced
    have hplaced' : (scale != 0) = true := by simpa using hpoint
    rw [hfirst, Scan.run_point rfl, hplaced, hplaced']
    unfold Scan.pushed
    simp [hvalue, hlength, Scan.run]

theorem ofSigned?_eq (d : Decimal) : ofSigned? d.negative d.magnitude d.scale = some d :=
  dif_pos ⟨d.magnitude_lt, d.scale_le⟩

/-- A text that begins with a digit has no sign. -/
theorem readPlain_of_digit {c : Char} (hc : c.isDigit) :
    readPlain (c :: cs) = Scan.run {} (c :: cs) := by
  unfold readPlain
  split
  · contradiction
  · rename_i h
    obtain ⟨rfl, -⟩ := List.cons.inj h
    cases hc
  · rename_i h
    obtain ⟨rfl, -⟩ := List.cons.inj h
    cases hc
  · rfl

section Numeral

open Text (Numeral)

variable {negative : Bool} {digits : List Char}

theorem readPlain_numeral (h : Numeral negative digits cs) (hne : digits ≠ [])
    (hdigits : Digits digits) : readPlain cs = Scan.run { negative } digits := by
  cases h with
  | minus => rfl
  | plus => rfl
  | bare =>
      obtain ⟨c, rest, rfl⟩ := List.exists_cons_of_ne_nil hne
      exact readPlain_of_digit (hdigits c List.mem_cons_self)

theorem not_isExponentMark_of_isDigit {c : Char} (hc : c.isDigit) : isExponentMark c = false := by
  unfold isExponentMark
  rw [Bool.or_eq_false_iff, beq_eq_false_iff_ne, beq_eq_false_iff_ne]
  constructor
  · rintro rfl
    cases hc
  · rintro rfl
    cases hc

/-- A number without a point has no exponent, so that it is read once only. -/
theorem read_eq_readPlain (h : Numeral negative digits cs) (hdigits : Digits digits) :
    read cs = readPlain cs := by
  have hrest : digits.any isExponentMark = false :=
    List.any_eq_false.mpr fun c hc => by rw [not_isExponentMark_of_isDigit (hdigits c hc)]; decide
  have hmark : cs.any isExponentMark = false := by
    cases h with
    | minus => exact hrest
    | plus => exact hrest
    | bare => exact hrest
  unfold read
  cases readPlain cs with
  | ok d => rfl
  | error e => exact if_neg (by rw [hmark]; decide)

/-- Digits with a sign or without are read as the number they make, if a decimal has room for it. -/
theorem read_numeral (h : Numeral negative digits cs) (hne : digits ≠ []) (hdigits : Digits digits) :
    read cs = if hroom : Nat.ofDigitChars 10 digits 0 < 79228162514264337593543950336 then
        .ok ⟨negative && Nat.ofDigitChars 10 digits 0 != 0, Nat.ofDigitChars 10 digits 0, 0, hroom,
          noPlaces⟩
      else .error .tooManyDigits := by
  rw [read_eq_readPlain h hdigits, readPlain_numeral h hne hdigits]
  split
  · rename_i hroom
    have hrun : Scan.run { negative } (digits ++ []) = (Scan.pushed { negative } digits).run [] :=
      Scan.run_digits hdigits hroom rfl
    have hstarted : (!digits.isEmpty) = true := by simpa using hne
    rw [List.append_nil] at hrun
    rw [hrun]
    unfold Scan.pushed Scan.run Scan.finish ofSigned?
    simp [hstarted, hroom]
  · rename_i hlarge
    have hnone : 0 < 79228162514264337593543950336 := by decide
    exact Scan.run_tooMany hdigits rfl hnone (Nat.not_lt.mp hlarge)

/-- Only a zero is without the sign that was read. -/
theorem toRat_signed {n : Nat} (hroom : n < 79228162514264337593543950336) :
    toRat ⟨negative && n != 0, n, 0, hroom, noPlaces⟩ = Whole.signed negative n := by
  unfold toRat coefficient Whole.signed
  cases negative with
  | false => simp
  | true => by_cases hn : n = 0 <;> simp [hn]

theorem read_sign_alone : read [] = .error .empty ∧ read ['-'] = .error .noDigits ∧
    read ['+'] = .error .noDigits := by decide

/-- What is read from digits with a sign or without is the number they make. -/
theorem toRat_of_read (h : Numeral negative digits cs) (hdigits : Digits digits) {d : Decimal}
    (hread : read cs = .ok d) :
    digits ≠ [] ∧ d.toRat = Whole.signed negative (Nat.ofDigitChars 10 digits 0) := by
  have hne : digits ≠ [] := by
    rintro rfl
    obtain ⟨hempty, hminus, hplus⟩ := read_sign_alone
    cases h with
    | minus =>
        rw [hminus] at hread
        cases hread
    | plus =>
        rw [hplus] at hread
        cases hread
    | bare =>
        rw [hempty] at hread
        cases hread
  rw [read_numeral h hne hdigits] at hread
  split at hread
  · obtain rfl := Except.ok.inj hread
    exact ⟨hne, toRat_signed _⟩
  · cases hread

end Numeral

/-- A decimal that is no negative zero is read back from its text. -/
theorem read_textChars {d : Decimal} (h : d.negative = true → d.magnitude ≠ 0) :
    read d.textChars = .ok d := by
  have hsign : (d.negative && d.magnitude != 0) = d.negative := by
    cases hd : d.negative with
    | false => rfl
    | true => simpa using h hd
  have hrun : Scan.run { negative := d.negative } (digitsText d.magnitude d.scale) = .ok d := by
    rw [run_digitsText d.scale_le d.magnitude_lt]
    unfold Scan.finish
    simp only [if_true, hsign, ofSigned?_eq]
  have hplain : readPlain d.textChars = .ok d := by
    unfold textChars isNegative
    cases hd : d.negative with
    | true =>
        rw [hd] at hrun
        exact hrun
    | false =>
        rw [hd] at hrun
        obtain ⟨whole, places, hwhole, -, hne, -, -, htext⟩ := digitsText_eq d.magnitude d.scale
        obtain ⟨c, whole, rfl⟩ := List.exists_cons_of_ne_nil hne
        obtain ⟨rest, hrest⟩ : ∃ rest, digitsText d.magnitude d.scale = c :: rest := by
          rw [htext]
          split
          · exact ⟨whole, rfl⟩
          · exact ⟨_, List.cons_append⟩
        rw [if_neg nofun, hrest, readPlain_of_digit (hwhole c List.mem_cons_self), ← hrest]
        exact hrun
  unfold read
  rw [hplain]

end ConstraintScoring.Decimal
