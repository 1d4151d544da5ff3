import ConstraintScoring.Proofs.Decimal.Text
import ConstraintScoring.Proofs.Outcome
import ConstraintScoring.Proofs.Score.Weights
import ConstraintScoring.Proofs.Text.Spacing
import ConstraintScoring.Score.HardSoft
import ConstraintScoring.Score.HardSoftDecimal
import ConstraintScoring.Score.Simple

/-!
# Scores are read back from their texts

Every score is what its text is read as, however many blanks there are around the levels, and so no
two scores have one text.
-/

namespace ConstraintScoring

/-- The scores of a type are read back from their texts. -/
structure ReadsBack (S : Type) [ReadableScore S] : Prop where
  read_text (s : S) : ReadableScore.read (Score.text s).toList = .ok s
  read_spaced (s : S) (cs : List Char) :
    Text.Spaced '/' (Text.splitAtEach '/' (Score.text s).toList) cs →
      ReadableScore.read cs = .ok s
  text_injective : Function.Injective (Score.text : S → String)
  /-- The text of what was read stands for the text that was read. -/
  read_again (cs : List Char) (s : S) : ReadableScore.read cs = .ok s →
    ReadableScore.read (Score.text s).toList = (ReadableScore.read cs : Except ScoreTextError S)

theorem Text.Spaced.refl (mark : Char) (cs : List Char) :
    Text.Spaced mark (Text.splitAtEach mark cs) cs := by
  refine ⟨_, List.forall₂_same.mpr fun part _ => .refl part, ?_⟩
  rw [Text.splitAtEach_eq, List.intercalate_splitOn]

/-- It is enough that spaced texts are read back. -/
theorem ReadsBack.of_spaced {S : Type} [ReadableScore S]
    (h : ∀ (s : S) cs, Text.Spaced '/' (Text.splitAtEach '/' (Score.text s).toList) cs →
      ReadableScore.read cs = .ok s) : ReadsBack S := by
  have hread : ∀ s : S, ReadableScore.read (Score.text s).toList = .ok s :=
    fun s => h s _ (.refl '/' _)
  refine ⟨hread, h, fun s s' hs => ?_, fun cs s hcs => (hread s).trans hcs.symm⟩
  have hs' := hread s'
  rw [← hs, hread s] at hs'
  exact Except.ok.inj hs'

namespace Text

theorem isPlain_of_isDigit {c : Char} (h : c.isDigit) : isBlank c = false ∧ c ≠ '/' := by
  obtain ⟨hlow, hhigh⟩ := Char.isDigit_iff_toNat.mp h
  have hlow : 48 ≤ c.toNat := hlow
  have hhigh : c.toNat ≤ 57 := hhigh
  refine ⟨?_, ?_⟩
  · simp [isBlank, blankRanges]
    omega
  · rintro rfl
    cases h

theorem Digits.solid {cs : List Char} (h : Digits cs) : Solid '/' cs :=
  fun c hc => isPlain_of_isDigit (h c hc)

theorem Solid.append {mark : Char} {cs cs' : List Char} (h : Solid mark cs) (h' : Solid mark cs') :
    Solid mark (cs ++ cs') :=
  fun c hc => (List.mem_append.mp hc).elim (h c) (h' c)

theorem Solid.cons {mark c : Char} {cs : List Char} (hc : isBlank c = false ∧ c ≠ mark)
    (h : Solid mark cs) : Solid mark (c :: cs) := List.forall_mem_cons.mpr ⟨hc, h⟩

theorem isBlank_slash : isBlank '/' = false := by decide

end Text

open Text (Solid Spaced)

theorem Whole.solid_text (w : Whole) : Solid '/' w.text.toList := by
  have hdigits : ∀ n, Solid '/' (Nat.toDigits 10 n) := fun n => (Text.digits_toDigits n).solid
  rw [Whole.text_toList]
  split
  · exact hdigits _
  · exact (hdigits _).cons (by decide)

namespace LevelGrammar

variable {g : LevelGrammar} {ws : List Whole} {cs : List Char}

theorem solid_levelTexts {levels : List LevelText}
    (h : ∀ level ∈ levels, Solid '/' level.ending.toList) (ws : List Whole) :
    ∀ text ∈ (levelTexts levels ws).map String.toList, Solid '/' text := by
  induction levels generalizing ws with
  | nil => exact nofun
  | cons level levels ih =>
      obtain ⟨hlevel, hlevels⟩ := List.forall_mem_cons.mp h
      cases ws with
      | nil => exact nofun
      | cons w ws =>
          refine List.forall_mem_cons.mpr ⟨?_, ih hlevels ws⟩
          rw [String.toList_append]
          exact w.solid_text.append hlevel

theorem levelTexts_ne_nil {levels : List LevelText} (hne : levels ≠ [])
    (hlength : ws.length = levels.length) : (levelTexts levels ws).map String.toList ≠ [] := by
  rcases levels with _ | ⟨level, levels⟩
  · exact absurd rfl hne
  · rcases ws with _ | ⟨w, ws⟩
    · cases hlength
    · exact List.cons_ne_nil _ _

/-- The parts that are read one after the other are those that were written. -/
theorem readLevels_levelTexts {levels : List LevelText} {text : List Char}
    (h : ws.length = levels.length) :
    g.readLevels text levels ((levelTexts levels ws).map String.toList) = .ok ws := by
  induction levels generalizing ws with
  | nil =>
      obtain rfl := List.length_eq_zero_iff.mp h
      rfl
  | cons level levels ih =>
      cases ws with
      | nil => cases h
      | cons w ws =>
          have hlevel : g.readLevel text (w.text ++ level.ending).toList level = .ok w := by
            unfold readLevel
            rw [String.toList_append, Text.dropEnding?_append]
            simp only [Whole.read_text]
          rw [levelTexts, List.map_cons, readLevels, hlevel]
          exact Outcome.bind_eq_ok.mpr ⟨w, rfl, Outcome.bind_eq_ok.mpr
            ⟨ws, ih (Nat.succ.inj h), rfl⟩⟩

theorem splitAtEach_write (hne : g.levels ≠ []) (hlength : ws.length = g.levels.length)
    (h : ∀ level ∈ g.levels, Solid '/' level.ending.toList) :
    Text.splitAtEach '/' (g.write ws).toList = (levelTexts g.levels ws).map String.toList := by
  unfold write
  rw [String.toList_intercalate, Text.splitAtEach_eq]
  refine List.splitOn_intercalate '/' (fun text htext hmem => ?_) ?_
  · exact (solid_levelTexts h ws text htext '/' hmem).2 rfl
  · exact levelTexts_ne_nil hne hlength

theorem read_spaced (hne : g.levels ≠ []) (hlength : ws.length = g.levels.length)
    (h : ∀ level ∈ g.levels, Solid '/' level.ending.toList)
    (hcs : Spaced '/' (Text.splitAtEach '/' (g.write ws).toList) cs) : g.read cs = .ok ws := by
  have hparts := splitAtEach_write hne hlength h
  rw [hparts] at hcs
  have hread := hcs.parts_eq Text.isBlank_slash (levelTexts_ne_nil hne hlength)
    (solid_levelTexts h ws)
  unfold read
  simp only [hread]
  exact readLevels_levelTexts hlength

end LevelGrammar

theorem SimpleScore.readsBack : ReadsBack SimpleScore := by
  refine .of_spaced fun s cs hcs => ?_
  have hread : grammar.read cs = .ok [s.score] :=
    LevelGrammar.read_spaced (List.cons_ne_nil _ _) rfl (by decide) hcs
  exact Outcome.bind_eq_ok.mpr ⟨_, hread, rfl⟩

theorem HardSoftScore.readsBack : ReadsBack HardSoftScore := by
  refine .of_spaced fun s cs hcs => ?_
  have hread : grammar.read cs = .ok [s.hard, s.soft] :=
    LevelGrammar.read_spaced (List.cons_ne_nil _ _) rfl (by decide) hcs
  exact Outcome.bind_eq_ok.mpr ⟨_, hread, rfl⟩

namespace Decimal

/-- The zeros at the end of the decimal places are those that were dropped. -/
theorem dropZeros_padded (d : Decimal) : ∃ k, Padded k d.dropZeros d := by
  fun_induction dropZeros d with
  | case1 negative m hm hs => exact ⟨0, rfl, (Nat.mul_one _).symm, rfl⟩
  | case2 negative m s hm hs hzero ih =>
      obtain ⟨k, hnegative, hmagnitude, hscale⟩ := ih
      refine ⟨k + 1, hnegative, ?_, ?_⟩
      · rw [Nat.pow_succ, ← Nat.mul_assoc, ← hmagnitude]
        exact (Nat.div_mul_cancel (Nat.dvd_of_mod_eq_zero hzero)).symm
      · exact congrArg (· + 1) hscale
  | case3 negative m s hm hs hzero => exact ⟨0, rfl, (Nat.mul_one _).symm, rfl⟩

theorem Padded.toRat {k : Nat} {d d' : Decimal} (h : Padded k d d') : d.toRat = d'.toRat := by
  unfold Decimal.toRat
  rw [h.coefficient, h.scale, Nat.pow_add, Int.cast_mul, Nat.cast_mul, Int.cast_natCast]
  exact (mul_div_mul_right _ _ (ten_pow_ne_zero k)).symm

theorem normalize_toRat (d : Decimal) : d.normalize.toRat = d.toRat := by
  unfold normalize
  split
  · rename_i hzero
    have hmagnitude : d.magnitude = 0 := by simpa [isZero] using hzero
    have hcoefficient : d.coefficient = 0 := by
      rw [← Int.natAbs_eq_zero, natAbs_coefficient, hmagnitude]
    unfold toRat
    rw [hcoefficient, Int.cast_zero, zero_div]
    exact zero_div _
  · obtain ⟨k, hk⟩ := d.dropZeros_padded
    exact hk.toRat

/-- Dropping zeros leaves no zero with a sign. -/
theorem normalize_sign (d : Decimal) : d.normalize.negative = true → d.normalize.magnitude ≠ 0 := by
  unfold normalize
  split
  · exact nofun
  · rename_i hzero
    obtain ⟨k, hk⟩ := d.dropZeros_padded
    intro _ hmagnitude
    refine hzero ?_
    unfold isZero
    rw [hk.magnitude, hmagnitude, Nat.zero_mul]
    rfl

theorem mul?_comm (a b : Decimal) : a.mul? b = b.mul? a := by
  have hsmall : bothSmall a b = bothSmall b a := Bool.and_comm _ _
  have hsign : (a.negative != b.negative) = (b.negative != a.negative) := Bool.xor_comm _ _
  unfold mul?
  rw [hsmall, hsign, Nat.mul_comm a.magnitude, Nat.add_comm a.scale, Bool.or_comm a.isZero]

end Decimal

theorem Whole.coefficient_ofWhole (w : Whole) {n : Nat} (h : n ≤ 28) :
    (Decimal.ofWhole w n h).coefficient = w.val := by
  unfold Decimal.coefficient Decimal.ofWhole
  by_cases hw : w.val < 0
  · simp only [hw, decide_true, if_true]
    omega
  · simp only [hw, decide_false, Bool.false_eq_true, if_false]
    omega

namespace HardSoftDecimalScore

/-- So many hundred-thousandths are as many whole numbers when they are scaled up. -/
theorem round_scaled (w : Whole) : ((Decimal.ofWhole scale 0 Decimal.noPlaces).mul?
    (.ofWhole w 5 (by decide))).map Decimal.round = some w.val := by
  have hwhole : (Decimal.fitSigned? (decide (w.val < 0)) w.val.natAbs 0).map Decimal.round =
      some w.val := by
    have hfit : Decimal.fitSigned? (decide (w.val < 0)) w.val.natAbs 0 =
        some (.ofWhole w 0 Decimal.noPlaces) := by
      have hsigned := Decimal.ofSigned?_eq (.ofWhole w 0 Decimal.noPlaces)
      unfold Decimal.fitSigned?
      simp [List.range_succ]
      exact hsigned
    rw [hfit, Option.map_some]
    refine congrArg some ?_
    unfold Decimal.round
    rw [Whole.coefficient_ofWhole]
    exact roundDiv_one _ _
  rw [Decimal.mul?_round rfl]
  split
  · rename_i hzero
    have hw : w.val = 0 := by
      have hmagnitude : w.val.natAbs = 0 := by simpa [Decimal.isZero, Decimal.ofWhole, scale] using hzero
      omega
    rw [hw]
    rfl
  · rw [← hwhole, ← Decimal.fitSigned?_padded (decide (w.val < 0)) w.val.natAbs 0 (k := 5) (by decide)]
    refine congrArg _ (congrArg₂ (fun negative m => Decimal.fitSigned? negative m 5) ?_ ?_)
    · exact Bool.false_bne _
    · exact Nat.mul_comm _ _

/-- A level is as many hundred-thousandths as it was before its zeros were dropped. -/
theorem toScaled?_levelDecimal (w : Whole) : toScaled? (levelDecimal w) = some w := by
  have hround : ((levelDecimal w).mul? (.ofWhole scale 0 Decimal.noPlaces)).map Decimal.round =
      some w.val := by
    unfold levelDecimal
    rw [Decimal.mul?_comm, Decimal.mul?_congr rfl (Decimal.normalize_toRat _), round_scaled]
  have hbind : toScaled? (levelDecimal w) = (((levelDecimal w).mul?
      (.ofWhole scale 0 Decimal.noPlaces)).map Decimal.round).bind Whole.ofInt? := by
    rw [Option.bind_map]
    rfl
  rw [hbind, hround]
  exact w.ofInt?_val

theorem solid_textChars (d : Decimal) : Solid '/' d.textChars := by
  have hdigits : Solid '/' (Decimal.digitsText d.magnitude d.scale) := by
    obtain ⟨whole, places, hwhole, hplaces, -, -, -, htext⟩ :=
      Decimal.digitsText_eq d.magnitude d.scale
    rw [htext]
    split
    · exact hwhole.solid
    · exact hwhole.solid.append (hplaces.solid.cons (by decide))
  unfold Decimal.textChars
  split
  · exact hdigits.cons (by decide)
  · exact hdigits

/-- A level as it is written. -/
def levelChars (w : Whole) (ending : String) : List Char :=
  (levelDecimal w).textChars ++ ending.toList

theorem readLevel_levelChars (w : Whole) {ending : String} {part : List Char}
    (h : Text.trim part = levelChars w ending) : readLevel part ending = .ok w := by
  have hread : Decimal.read (levelDecimal w).textChars = .ok (levelDecimal w) :=
    Decimal.read_textChars (Decimal.normalize_sign _)
  unfold readLevel
  rw [h, levelChars, Text.dropEnding?_append]
  simp only [hread, toScaled?_levelDecimal]

theorem solid_levels (s : HardSoftDecimalScore) :
    ∀ part ∈ [levelChars s.hardScaled "hard", levelChars s.softScaled "soft"], Solid '/' part :=
  List.forall_mem_cons.mpr ⟨(solid_textChars _).append (by decide),
    List.forall_mem_singleton.mpr ((solid_textChars _).append (by decide))⟩

theorem splitAtEach_text (s : HardSoftDecimalScore) :
    Text.splitAtEach '/' (Score.text s).toList =
      [levelChars s.hardScaled "hard", levelChars s.softScaled "soft"] := by
  have htext : (Score.text s).toList = ['/'].intercalate
      [levelChars s.hardScaled "hard", levelChars s.softScaled "soft"] := by
    change (s.hard.text ++ "hard/" ++ s.soft.text ++ "soft").toList = _
    have hslash : "hard/".toList = "hard".toList ++ ['/'] := by decide
    simp only [String.toList_append, hslash, Decimal.text, String.toList_ofList, levelChars, hard,
      soft, List.intercalate_cons_cons, List.intercalate_singleton, List.append_assoc]
  rw [htext, Text.splitAtEach_eq]
  exact List.splitOn_intercalate '/' (fun part hpart hmem => (solid_levels s part hpart '/' hmem).2 rfl)
    (List.cons_ne_nil _ _)

theorem readsBack : ReadsBack HardSoftDecimalScore := by
  refine .of_spaced fun s cs hcs => ?_
  rw [splitAtEach_text] at hcs
  have hparts := hcs.parts_eq Text.isBlank_slash (List.cons_ne_nil _ _) (solid_levels s)
  obtain ⟨hardPart, rest, hcut, hhard, hrest⟩ := List.map_eq_cons_iff.mp hparts
  obtain ⟨softPart, rest, rfl, hsoft, hrest⟩ := List.map_eq_cons_iff.mp hrest
  obtain rfl := List.map_eq_nil_iff.mp hrest
  change readText cs = .ok s
  unfold readText
  simp only [Text.splitAtFirst?_of_splitAtEach hcut]
  exact Outcome.bind_eq_ok.mpr ⟨_, readLevel_levelChars _ hhard, Outcome.bind_eq_ok.mpr
    ⟨_, readLevel_levelChars _ hsoft, rfl⟩⟩

end HardSoftDecimalScore

/-- Scores of every type are read back from their texts. -/
theorem scores_readBack : ReadsBack SimpleScore ∧ ReadsBack HardSoftScore ∧
    ReadsBack HardSoftDecimalScore :=
  ⟨SimpleScore.readsBack, HardSoftScore.readsBack, HardSoftDecimalScore.readsBack⟩

example : ReadableScore.read "\t-92233720368547.75808hard / 0.00001 soft".toList =
    (.error (.malformedDecimal "soft" "0.00001 " .unknownCharacter) :
      Except ScoreTextError HardSoftDecimalScore) := by decide +kernel

example : ReadableScore.read "\t-92233720368547.75808hard / 0.00001soft ".toList =
    (.ok ⟨.least, 1⟩ : Except ScoreTextError HardSoftDecimalScore) := by decide +kernel

end ConstraintScoring
