import ConstraintScoring.Proofs.Score.Scaling

/-!
# Whole levels are read alike

A text of a hard and a soft level can be read with whole levels or with five decimal places. Where
both levels are written as whole numbers the two ways of reading agree: the same texts are read, with
the same numbers, except that a level must be in range after it was multiplied by a hundred thousand.
-/

namespace ConstraintScoring

namespace Text

variable {mark : Char} {cs before after : List Char}

theorem splitAtFirst?_eq (h : splitAtFirst? mark cs = some (before, after)) :
    cs = before ++ mark :: after ∧ mark ∉ before := by
  induction cs generalizing before with
  | nil => cases h
  | cons c cs ih =>
      unfold splitAtFirst? at h
      split at h
      · rename_i hc
        obtain ⟨rfl, rfl⟩ := Prod.mk.inj (Option.some.inj h)
        exact ⟨by rw [hc, List.nil_append], List.not_mem_nil⟩
      · rename_i hc
        obtain ⟨⟨before', after'⟩, hrest, hparts⟩ := Option.map_eq_some_iff.mp h
        obtain ⟨rfl, rfl⟩ := Prod.mk.inj hparts
        obtain ⟨hcs, hnot⟩ := ih hrest
        refine ⟨by rw [hcs, List.cons_append], ?_⟩
        rw [List.mem_cons, not_or]
        exact ⟨Ne.symm hc, hnot⟩

/-- The first mark is the only one if there is none behind it. -/
theorem splitAtEach_of_splitAtFirst? (h : splitAtFirst? mark cs = some (before, after))
    (hafter : mark ∉ after) : splitAtEach mark cs = [before, after] := by
  obtain ⟨rfl, hbefore⟩ := splitAtFirst?_eq h
  rw [splitAtEach_eq]
  have hsolid : ∀ part ∈ [before, after], mark ∉ part :=
    List.forall_mem_cons.mpr ⟨hbefore, List.forall_mem_singleton.mpr hafter⟩
  have hparts := List.splitOn_intercalate mark hsolid (List.cons_ne_nil _ _)
  rwa [List.intercalate_cons_cons, List.intercalate_singleton, List.append_assoc] at hparts

theorem eq_append_of_dropEnding? {ending number : List Char}
    (h : dropEnding? ending cs = some number) : cs = number ++ ending := by
  unfold dropEnding? at h
  split at h
  · rename_i hsuffix
    obtain ⟨rest, rfl⟩ := List.isSuffixOf_iff_suffix.mp hsuffix
    obtain rfl := Option.some.inj h
    rw [List.length_append, Nat.add_sub_cancel, List.take_left]
  · cases h

theorem Numeral.solid {negative : Bool} {digits : List Char} (h : Numeral negative digits cs)
    (hdigits : Digits digits) : Solid '/' cs := by
  cases h with
  | minus => exact hdigits.solid.cons (by decide)
  | plus => exact hdigits.solid.cons (by decide)
  | bare => exact hdigits.solid

/-- A level that is written as a whole number: a sign or none, digits, and the name of the level. -/
def WholeLevel (ending : String) (part : List Char) : Prop :=
  ∃ number negative digits, dropEnding? ending.toList (trim part) = some number ∧
    Numeral negative digits number ∧ Digits digits

theorem WholeLevel.not_mem {ending : String} {part : List Char} (h : WholeLevel ending part)
    (hending : Solid '/' ending.toList) : '/' ∉ part := by
  obtain ⟨number, negative, digits, hdrop, hnumeral, hdigits⟩ := h
  have hsolid := (hnumeral.solid hdigits).append hending
  rw [← eq_append_of_dropEnding? hdrop] at hsolid
  exact (trim_padded part).not_mem isBlank_slash hsolid

end Text

/-- A number that is in range when it is scaled up is in range itself. -/
theorem Whole.inRange_of_scaled {n : Int} {w : Whole} (h : w.val = n * 100000) : InRange n := by
  have hlow : -9223372036854775808 ≤ w.val := w.min_le
  have hhigh : w.val ≤ 9223372036854775807 := w.le_max
  constructor
  · change -9223372036854775808 ≤ n
    omega
  · change n ≤ 9223372036854775807
    omega

namespace LevelGrammar

variable {g : LevelGrammar} {text part : List Char} {level : LevelText} {w : Whole}

theorem readLevels_nil_eq_ok_iff {parts : List (List Char)} {ws : List Whole} :
    g.readLevels text [] parts = .ok ws ↔ parts = [] ∧ ws = [] := by
  cases parts with
  | nil =>
      constructor
      · intro h
        exact ⟨rfl, (Except.ok.inj h).symm⟩
      · rintro ⟨-, rfl⟩
        rfl
  | cons part parts =>
      constructor
      · intro h
        cases h
      · rintro ⟨h, -⟩
        cases h

theorem readLevels_cons_eq_ok_iff {levels : List LevelText} {parts : List (List Char)}
    {ws : List Whole} : g.readLevels text (level :: levels) parts = .ok ws ↔
      ∃ part rest w ws', parts = part :: rest ∧ ws = w :: ws' ∧
        g.readLevel text part level = .ok w ∧ g.readLevels text levels rest = .ok ws' := by
  cases parts with
  | nil =>
      constructor
      · intro h
        cases h
      · rintro ⟨_, _, _, _, h, -⟩
        cases h
  | cons part parts =>
      rw [readLevels]
      constructor
      · intro h
        obtain ⟨w, hw, h⟩ := Outcome.bind_eq_ok.mp h
        obtain ⟨ws', hws, h⟩ := Outcome.bind_eq_ok.mp h
        exact ⟨part, parts, w, ws', rfl, (Except.ok.inj h).symm, hw, hws⟩
      · rintro ⟨_, _, w, ws', hparts, rfl, hw, hws⟩
        obtain ⟨rfl, rfl⟩ := List.cons.inj hparts
        exact Outcome.bind_eq_ok.mpr ⟨w, hw, Outcome.bind_eq_ok.mpr ⟨ws', hws, rfl⟩⟩

theorem readLevel_eq_ok_iff : g.readLevel text part level = .ok w ↔
    ∃ number, Text.dropEnding? level.ending.toList part = some number ∧ Whole.read number = .ok w := by
  unfold readLevel
  constructor
  · intro h
    split at h
    · cases h
    · rename_i number hdrop
      refine ⟨number, hdrop, ?_⟩
      split at h
      · rename_i v hread
        rw [hread, Except.ok.inj h]
      · cases h
  · rintro ⟨number, hdrop, hread⟩
    simp only [hdrop, hread]

end LevelGrammar

namespace HardSoftDecimalScore

variable {ending : String} {part number : List Char} {w x : Whole}

/-- A decimal that is a whole number becomes that number times a hundred thousand. -/
theorem toScaled?_of_whole {d : Decimal} {n : Int} (h : d.toRat = n) :
    toScaled? d = Whole.ofInt? (n * 100000) := by
  have hproduct : d.toRat * 100000 = ((n * 100000 : Int) : Rat) := by
    rw [h]
    push_cast
    rfl
  rw [toScaled?_eq, hproduct, nearestWhole_intCast]

/-- A level that is a whole number is read and scaled up, if it stays in range. -/
theorem readLevel_of_whole (hdrop : Text.dropEnding? ending.toList (Text.trim part) = some number)
    (hread : Whole.read number = .ok w) : readLevel part ending =
      match w.mul? scale with
      | some x => .ok x
      | none => .error (.outOfRange ending (.ofList number)) := by
  obtain ⟨negative, digits, hnumeral, hne, hdigits, hw⟩ := Whole.read_eq_ok_iff.mp hread
  have hroom : Nat.ofDigitChars 10 digits 0 < 79228162514264337593543950336 := by
    have := Whole.le_of_signed hw
    omega
  have hd := Decimal.read_numeral hnumeral hne hdigits
  rw [dif_pos hroom] at hd
  obtain ⟨-, hnumber⟩ := Decimal.toRat_of_read hnumeral hdigits hd
  have hscaled := toScaled?_of_whole (hnumber.trans (congrArg Int.cast hw.symm))
  unfold readLevel
  simp only [hdrop, hd, hscaled]
  rfl

/-- A level that is read and written as a whole number is a whole number scaled up. -/
theorem whole_of_readLevel (hlevel : Text.WholeLevel ending part) (h : readLevel part ending = .ok x) :
    ∃ number w, Text.dropEnding? ending.toList (Text.trim part) = some number ∧
      Whole.read number = .ok w ∧ x.val = w.val * 100000 := by
  obtain ⟨number, negative, digits, hdrop, hnumeral, hdigits⟩ := hlevel
  unfold readLevel at h
  simp only [hdrop] at h
  split at h
  · cases h
  · rename_i d hd
    obtain ⟨hne, hnumber⟩ := Decimal.toRat_of_read hnumeral hdigits hd
    split at h
    · rename_i y hy
      obtain rfl := Except.ok.inj h
      rw [toScaled?_of_whole hnumber, Whole.ofInt?_eq_some_iff] at hy
      obtain ⟨w, -, hw⟩ := Whole.ofInt?_of_inRange (Whole.inRange_of_scaled hy)
      refine ⟨number, w, hdrop, ?_, by rw [hy, hw]⟩
      exact Whole.read_eq_ok_iff.mpr ⟨negative, digits, hnumeral, hne, hdigits, hw⟩
    · cases h

theorem readText_eq_ok_iff {cs : List Char} {s : HardSoftDecimalScore} : readText cs = .ok s ↔
    ∃ hard soft, Text.splitAtFirst? '/' (Text.trim cs) = some (hard, soft) ∧
      readLevel hard "hard" = .ok s.hardScaled ∧ readLevel soft "soft" = .ok s.softScaled := by
  unfold readText
  constructor
  · intro h
    simp only at h
    split at h
    · cases h
    · rename_i hard soft hsplit
      obtain ⟨v, hv, h⟩ := Outcome.bind_eq_ok.mp h
      obtain ⟨w, hw, h⟩ := Outcome.bind_eq_ok.mp h
      obtain rfl := Except.ok.inj h
      exact ⟨hard, soft, hsplit, hv, hw⟩
  · rintro ⟨hard, soft, hsplit, hhard, hsoft⟩
    simp only [hsplit]
    exact Outcome.bind_eq_ok.mpr ⟨_, hhard, Outcome.bind_eq_ok.mpr ⟨_, hsoft, rfl⟩⟩

theorem ofWhole_eq_ok_iff {h s : Whole} {x : HardSoftDecimalScore} : ofWhole h s = .ok x ↔
    h.mul? scale = some x.hardScaled ∧ s.mul? scale = some x.softScaled := by
  unfold ofWhole
  constructor
  · intro hx
    split at hx
    · rename_i hh hs
      obtain rfl := Except.ok.inj hx
      exact ⟨hh, hs⟩
    · cases hx
  · rintro ⟨hh, hs⟩
    rw [hh, hs]

end HardSoftDecimalScore

namespace HardSoftScore

variable {cs : List Char} {h s : Whole}

/-- A text is read as two levels if it is cut into two parts and each of them is read. -/
theorem read_eq_ok_iff : ReadableScore.read cs = .ok (⟨h, s⟩ : HardSoftScore) ↔
    ∃ hard soft, Text.splitAtEach '/' (Text.trim cs) = [hard, soft] ∧
      (∃ number, Text.dropEnding? "hard".toList (Text.trim hard) = some number ∧
        Whole.read number = .ok h) ∧
      ∃ number, Text.dropEnding? "soft".toList (Text.trim soft) = some number ∧
        Whole.read number = .ok s := by
  constructor
  · intro hread
    obtain ⟨ws, hws, hscore⟩ := Outcome.bind_eq_ok.mp hread
    obtain ⟨_, _, v, _, hparts, rfl, hhard, hrest⟩ := LevelGrammar.readLevels_cons_eq_ok_iff.mp hws
    obtain ⟨_, _, w, _, rfl, rfl, hsoft, hrest⟩ := LevelGrammar.readLevels_cons_eq_ok_iff.mp hrest
    obtain ⟨rfl, rfl⟩ := LevelGrammar.readLevels_nil_eq_ok_iff.mp hrest
    obtain ⟨hard, softs, hcut, rfl, hsofts⟩ := List.map_eq_cons_iff.mp hparts
    obtain ⟨soft, others, rfl, rfl, hothers⟩ := List.map_eq_cons_iff.mp hsofts
    obtain rfl := List.map_eq_nil_iff.mp hothers
    obtain ⟨rfl, rfl⟩ := HardSoftScore.mk.inj (Except.ok.inj hscore)
    exact ⟨hard, soft, hcut, LevelGrammar.readLevel_eq_ok_iff.mp hhard,
      LevelGrammar.readLevel_eq_ok_iff.mp hsoft⟩
  · rintro ⟨hard, soft, hcut, hhard, hsoft⟩
    have hparts : (Text.splitAtEach '/' (Text.trim cs)).map Text.trim =
        [Text.trim hard, Text.trim soft] := by rw [hcut]; rfl
    refine Outcome.bind_eq_ok.mpr ⟨[h, s], ?_, rfl⟩
    unfold LevelGrammar.read
    dsimp only
    rw [hparts]
    refine LevelGrammar.readLevels_cons_eq_ok_iff.mpr ⟨_, _, h, [s], rfl, rfl,
      LevelGrammar.readLevel_eq_ok_iff.mpr hhard, ?_⟩
    exact LevelGrammar.readLevels_cons_eq_ok_iff.mpr ⟨_, _, s, [], rfl, rfl,
      LevelGrammar.readLevel_eq_ok_iff.mpr hsoft, rfl⟩

end HardSoftScore

/-- A text of a hard and a soft level that are both written as whole numbers. -/
def Text.WholeLevels (cs : List Char) : Prop :=
  ∃ hard soft, splitAtFirst? '/' (trim cs) = some (hard, soft) ∧
    WholeLevel "hard" hard ∧ WholeLevel "soft" soft

open HardSoftDecimalScore (ofWhole)

variable {cs : List Char} {h s : Whole}

/-- Levels that stay in range when they are scaled up are read with decimal places as well. -/
theorem HardSoftDecimalScore.read_of_whole
    (hread : ReadableScore.read cs = .ok (⟨h, s⟩ : HardSoftScore))
    (hhard : Whole.InRange (h.val * 100000)) (hsoft : Whole.InRange (s.val * 100000)) :
    ∃ x, ofWhole h s = .ok x ∧ ReadableScore.read cs = .ok x := by
  obtain ⟨hard, soft, hcut, ⟨number, hdrop, hnumber⟩, number', hdrop', hnumber'⟩ :=
    HardSoftScore.read_eq_ok_iff.mp hread
  obtain ⟨v, hv, -⟩ := Whole.ofInt?_of_inRange hhard
  obtain ⟨w, hw, -⟩ := Whole.ofInt?_of_inRange hsoft
  have hv : h.mul? scale = some v := hv
  have hw : s.mul? scale = some w := hw
  refine ⟨⟨v, w⟩, ofWhole_eq_ok_iff.mpr ⟨hv, hw⟩, readText_eq_ok_iff.mpr
    ⟨hard, soft, Text.splitAtFirst?_of_splitAtEach hcut, ?_, ?_⟩⟩
  · rw [readLevel_of_whole hdrop hnumber, hv]
  · rw [readLevel_of_whole hdrop' hnumber', hw]

/-- A level that leaves the range when it is scaled up is refused. -/
theorem HardSoftDecimalScore.read_outOfRange
    (hread : ReadableScore.read cs = .ok (⟨h, s⟩ : HardSoftScore))
    (hout : ¬ (Whole.InRange (h.val * 100000) ∧ Whole.InRange (s.val * 100000))) :
    ∃ level number, ReadableScore.read cs =
      (.error (.outOfRange level number) : Except ScoreTextError HardSoftDecimalScore) := by
  obtain ⟨hard, soft, hcut, ⟨number, hdrop, hnumber⟩, number', hdrop', hnumber'⟩ :=
    HardSoftScore.read_eq_ok_iff.mp hread
  have hfirst := Text.splitAtFirst?_of_splitAtEach hcut
  have hhard := readLevel_of_whole hdrop hnumber
  have hsoft := readLevel_of_whole hdrop' hnumber'
  change ∃ level number, readText cs = .error (.outOfRange level number)
  unfold readText
  simp only [hfirst, hhard, hsoft]
  cases hv : h.mul? scale with
  | none => exact ⟨_, _, rfl⟩
  | some v =>
      cases hw : s.mul? scale with
      | none => exact ⟨_, _, rfl⟩
      | some w =>
          have hv' : v.val = h.val * 100000 := Whole.ofInt?_eq_some_iff.mp hv
          have hw' : w.val = s.val * 100000 := Whole.ofInt?_eq_some_iff.mp hw
          exact absurd ⟨hv' ▸ v.inRange_val, hw' ▸ w.inRange_val⟩ hout

/-- Levels that are read with decimal places and are whole numbers are read as such. -/
theorem HardSoftScore.read_of_scaled {x : HardSoftDecimalScore} (hread : ReadableScore.read cs = .ok x)
    (hwhole : Text.WholeLevels cs) :
    ∃ h s, ReadableScore.read cs = .ok (⟨h, s⟩ : HardSoftScore) ∧ ofWhole h s = .ok x := by
  obtain ⟨hard, soft, hsplit, hhard, hsoft⟩ := hwhole
  obtain ⟨_, _, hsplit', hv, hw⟩ := HardSoftDecimalScore.readText_eq_ok_iff.mp hread
  obtain ⟨rfl, rfl⟩ := Prod.mk.inj (Option.some.inj (hsplit.symm.trans hsplit'))
  obtain ⟨number, h, hdrop, hnumber, hh⟩ := HardSoftDecimalScore.whole_of_readLevel hhard hv
  obtain ⟨number', s, hdrop', hnumber', hs⟩ := HardSoftDecimalScore.whole_of_readLevel hsoft hw
  have hcut := Text.splitAtEach_of_splitAtFirst? hsplit (hsoft.not_mem (by decide))
  refine ⟨h, s, HardSoftScore.read_eq_ok_iff.mpr
    ⟨hard, soft, hcut, ⟨number, hdrop, hnumber⟩, number', hdrop', hnumber'⟩, ?_⟩
  exact HardSoftDecimalScore.ofWhole_eq_ok_iff.mpr
    ⟨Whole.ofInt?_eq_some_iff.mpr hh, Whole.ofInt?_eq_some_iff.mpr hs⟩

/-- A text that is read as two whole levels is read with decimal places as the same levels, if these
stay in range when they are scaled up, and is refused otherwise. Conversely, a text that is read with
decimal places and has two whole numbers is read as these whole levels. -/
theorem HardSoftScore.read_agrees (cs : List Char) :
    (∀ h s : Whole, ReadableScore.read cs = .ok (⟨h, s⟩ : HardSoftScore) →
      (Whole.InRange (h.val * 100000) ∧ Whole.InRange (s.val * 100000) →
        ∃ x, ofWhole h s = .ok x ∧ ReadableScore.read cs = .ok x) ∧
      (¬ (Whole.InRange (h.val * 100000) ∧ Whole.InRange (s.val * 100000)) →
        ∃ level number, ReadableScore.read cs =
          (.error (.outOfRange level number) : Except ScoreTextError HardSoftDecimalScore))) ∧
    ∀ x : HardSoftDecimalScore, ReadableScore.read cs = .ok x → Text.WholeLevels cs →
      ∃ h s, ReadableScore.read cs = .ok (⟨h, s⟩ : HardSoftScore) ∧ ofWhole h s = .ok x := by
  refine ⟨fun h s hread => ⟨fun hrange => ?_, fun hout => ?_⟩, fun x hread hwhole => ?_⟩
  · exact HardSoftDecimalScore.read_of_whole hread hrange.1 hrange.2
  · exact HardSoftDecimalScore.read_outOfRange hread hout
  · exact HardSoftScore.read_of_scaled hread hwhole

/-- Blanks, a plus sign, zeros in front and the sign of a zero do not matter to either reading. -/
theorem HardSoftScore.read_agrees_spelled :
    ReadableScore.read " +00092233720368547hard /\t-0soft\n".toList =
        .ok (⟨⟨9223372036854700000, by decide, by decide⟩, 0⟩ : HardSoftDecimalScore) ∧
      ∃ level number, ReadableScore.read "0hard/92233720368548soft".toList =
        (.error (.outOfRange level number) : Except ScoreTextError HardSoftDecimalScore) := by
  constructor
  · have hread : ReadableScore.read " +00092233720368547hard /\t-0soft\n".toList =
        .ok (⟨⟨92233720368547, by decide, by decide⟩, 0⟩ : HardSoftScore) := by decide +kernel
    have hscaled : ofWhole ⟨92233720368547, by decide, by decide⟩ 0 =
        .ok ⟨⟨9223372036854700000, by decide, by decide⟩, 0⟩ := by decide
    obtain ⟨x, hx, hsame⟩ := ((HardSoftScore.read_agrees _).1 _ _ hread).1 (by decide)
    obtain rfl := Except.ok.inj (hx.symm.trans hscaled)
    exact hsame
  · -- One more than the levels that stay in range when they are scaled up.
    have hread : ReadableScore.read "0hard/92233720368548soft".toList =
        .ok (⟨0, ⟨92233720368548, by decide, by decide⟩⟩ : HardSoftScore) := by decide +kernel
    exact ((HardSoftScore.read_agrees _).1 _ _ hread).2 (by decide)

end ConstraintScoring
