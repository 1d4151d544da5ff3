import ConstraintScoring.Text.Blank
import Mathlib.Data.List.Forall2

/-!
# Parts of a text with blanks around them

A text is cut into parts at a mark, and each part is trimmed. Blanks around the parts are lost in
this way, so it does not matter whether the whole text was trimmed before.
-/

namespace ConstraintScoring.Text

variable {mark : Char} {cs part blanks : List Char}

def Blanks (cs : List Char) : Prop := ∀ c ∈ cs, isBlank c = true

/-- A part of a text that no blank and no mark cuts. -/
def Solid (mark : Char) (cs : List Char) : Prop := ∀ c ∈ cs, isBlank c = false ∧ c ≠ mark

instance (mark : Char) (cs : List Char) : Decidable (Solid mark cs) :=
  List.decidableBAll _ cs

/-- A text with blanks before it and after it. -/
def Padded (cs padded : List Char) : Prop :=
  ∃ before after, Blanks before ∧ Blanks after ∧ padded = before ++ cs ++ after

/-- Parts with blanks around each of them and a mark between each and the next. -/
def Spaced (mark : Char) (parts : List (List Char)) (cs : List Char) : Prop :=
  ∃ padded, List.Forall₂ Padded parts padded ∧ cs = [mark].intercalate padded

theorem Padded.refl (cs : List Char) : Padded cs cs :=
  ⟨[], [], nofun, nofun, (List.append_nil cs).symm⟩

theorem Blanks.reverse (h : Blanks blanks) : Blanks blanks.reverse :=
  fun c hc => h c (List.mem_reverse.mp hc)

section Trimming

theorem trimLeft_append (h : Blanks blanks) (cs : List Char) :
    trimLeft (blanks ++ cs) = trimLeft cs := List.dropWhile_append_of_pos h

theorem trimRight_append (h : Blanks blanks) (cs : List Char) :
    trimRight (cs ++ blanks) = trimRight cs := by
  unfold trimRight
  rw [List.reverse_append, trimLeft_append h.reverse]

theorem trim_append_left (h : Blanks blanks) (cs : List Char) : trim (blanks ++ cs) = trim cs := by
  unfold trim
  rw [trimLeft_append h]

theorem trim_append_right (h : Blanks blanks) (cs : List Char) :
    trim (cs ++ blanks) = trim cs := by
  unfold trim
  have hleft : trimLeft (cs ++ blanks) =
      if (trimLeft cs).isEmpty then trimLeft blanks else trimLeft cs ++ blanks :=
    List.dropWhile_append
  rw [hleft]
  split
  · rename_i hempty
    have hblanks := trimLeft_append h []
    rw [List.append_nil] at hblanks
    rw [hblanks, List.isEmpty_iff.mp hempty]
    rfl
  · exact trimRight_append h _

theorem trimLeft_of_solid (h : Solid mark cs) : trimLeft cs = cs := by
  cases cs with
  | nil => rfl
  | cons c cs => exact List.dropWhile_cons_of_neg (by simp [h c List.mem_cons_self])

theorem trim_of_solid (h : Solid mark cs) : trim cs = cs := by
  unfold trim trimRight
  have hreverse : Solid mark cs.reverse := fun c hc => h c (List.mem_reverse.mp hc)
  rw [trimLeft_of_solid h, trimLeft_of_solid hreverse, List.reverse_reverse]

/-- A solid text is what trimming leaves of it with blanks around it. -/
theorem Padded.trim_eq {padded : List Char} (h : Padded cs padded) (hs : Solid mark cs) :
    trim padded = cs := by
  obtain ⟨before, after, hbefore, hafter, rfl⟩ := h
  rw [trim_append_right hafter, trim_append_left hbefore, trim_of_solid hs]

/-- Trimming takes blanks away at both ends. -/
theorem trim_padded (cs : List Char) : Padded (trim cs) cs := by
  refine ⟨cs.takeWhile isBlank, ((trimLeft cs).reverse.takeWhile isBlank).reverse,
    fun c hc => List.all_eq_true.mp List.all_takeWhile c hc, ?_, ?_⟩
  · intro c hc
    exact List.all_eq_true.mp List.all_takeWhile c (List.mem_reverse.mp hc)
  · have hright : trim cs ++ ((trimLeft cs).reverse.takeWhile isBlank).reverse = trimLeft cs := by
      unfold trim trimRight
      rw [← List.reverse_append]
      unfold trimLeft
      rw [List.takeWhile_append_dropWhile, List.reverse_reverse]
    rw [List.append_assoc, hright]
    exact List.takeWhile_append_dropWhile.symm

end Trimming

section Cutting

theorem splitAtEach_eq (mark : Char) (cs : List Char) : splitAtEach mark cs = cs.splitOn mark := by
  induction cs with
  | nil => rfl
  | cons c cs ih =>
      rw [splitAtEach, ih, List.splitOn_cons_eq_if_modifyHead]
      cases hparts : cs.splitOn mark with
      | nil => exact absurd hparts (List.splitOn_ne_nil mark cs)
      | cons part parts =>
          by_cases hc : c = mark
          · rw [if_pos (beq_iff_eq.mpr hc)]
            exact if_pos hc
          · rw [if_neg (by simpa using hc)]
            exact if_neg hc

/-- A text without the mark only adds to the part that follows it. -/
theorem splitOn_append_left (h : mark ∉ blanks) (cs : List Char) :
    (blanks ++ cs).splitOn mark = (cs.splitOn mark).modifyHead (blanks ++ ·) := by
  induction blanks with
  | nil => exact (congrFun List.modifyHead_id (cs.splitOn mark)).symm
  | cons c blanks ih =>
      have hc : ¬c = mark := fun hc => h (hc ▸ List.mem_cons_self)
      have hblanks : mark ∉ blanks := fun hmem => h (List.mem_cons_of_mem c hmem)
      rw [List.cons_append, List.splitOn_cons_eq_if_modifyHead, if_neg (by simpa using hc),
        ih hblanks, List.modifyHead_modifyHead]
      rfl

/-- A text without the mark only adds to the part in front of it. -/
theorem splitOn_append_right (h : mark ∉ blanks) (cs : List Char) :
    List.Forall₂ (fun part longer => longer = part ∨ longer = part ++ blanks)
      (cs.splitOn mark) ((cs ++ blanks).splitOn mark) := by
  induction cs with
  | nil =>
      rw [List.nil_append, List.splitOn_eq_singleton h]
      exact .cons (Or.inr rfl) .nil
  | cons c cs ih =>
      rw [List.cons_append, List.splitOn_cons_eq_if_modifyHead,
        List.splitOn_cons_eq_if_modifyHead]
      split
      · exact .cons (Or.inl rfl) ih
      · generalize cs.splitOn mark = parts at ih ⊢
        generalize (cs ++ blanks).splitOn mark = longer at ih ⊢
        cases ih with
        | nil => exact .nil
        | cons hpart hparts =>
            refine .cons ?_ hparts
            rcases hpart with rfl | rfl
            · exact Or.inl rfl
            · exact Or.inr rfl

/-- What stands before and after the only mark. -/
theorem splitAtFirst?_of_splitAtEach {before after : List Char}
    (h : splitAtEach mark cs = [before, after]) : splitAtFirst? mark cs = some (before, after) := by
  induction cs generalizing before with
  | nil => cases h
  | cons c cs ih =>
      rw [splitAtEach_eq, List.splitOn_cons_eq_if_modifyHead, ← splitAtEach_eq] at h
      unfold splitAtFirst?
      split at h
      · rename_i hc
        obtain ⟨rfl, hrest⟩ := List.cons.inj h
        rw [if_pos (beq_iff_eq.mp hc)]
        have hwhole := congrArg [mark].intercalate hrest
        rw [splitAtEach_eq, List.intercalate_splitOn, List.intercalate_singleton] at hwhole
        rw [hwhole]
      · rename_i hc
        rw [if_neg (by simpa using hc)]
        cases hparts : splitAtEach mark cs with
        | nil =>
            rw [hparts] at h
            cases h
        | cons part parts =>
            rw [hparts, List.modifyHead_cons] at h
            obtain ⟨rfl, rfl⟩ := List.cons.inj h
            rw [ih hparts]
            rfl

theorem dropEnding?_append (ending cs : List Char) :
    dropEnding? ending (cs ++ ending) = some cs := by
  unfold dropEnding?
  rw [if_pos (List.isSuffixOf_iff_suffix.mpr (List.suffix_append cs ending)), List.length_append,
    Nat.add_sub_cancel, List.take_left]

variable (hmark : isBlank mark = false)

include hmark

theorem Blanks.not_mem (h : Blanks blanks) : mark ∉ blanks := by
  intro hmem
  rw [h mark hmem] at hmark
  cases hmark

/-- Trimmed parts do not show whether the whole text was trimmed before it was cut. -/
theorem map_trim_splitAtEach (cs : List Char) :
    (splitAtEach mark (trim cs)).map trim = (splitAtEach mark cs).map trim := by
  obtain ⟨before, after, hbefore, hafter, hcs⟩ := trim_padded cs
  have hleft : (cs.splitOn mark).map trim = ((trim cs ++ after).splitOn mark).map trim := by
    conv_lhs => rw [hcs]
    rw [List.append_assoc, splitOn_append_left (hbefore.not_mem hmark)]
    cases (trim cs ++ after).splitOn mark with
    | nil => rfl
    | cons part parts =>
        rw [List.modifyHead_cons, List.map_cons, List.map_cons, trim_append_left hbefore]
  have hright : ((trim cs ++ after).splitOn mark).map trim = ((trim cs).splitOn mark).map trim := by
    rw [← List.forall₂_eq_eq_eq, List.forall₂_map_left_iff, List.forall₂_map_right_iff]
    refine (splitOn_append_right (hafter.not_mem hmark) (trim cs)).flip.imp fun longer part h => ?_
    rcases h with rfl | rfl
    · rfl
    · exact trim_append_right hafter part
  rw [splitAtEach_eq, splitAtEach_eq, hleft, hright]

theorem Padded.not_mem {padded : List Char} (h : Padded cs padded) (hs : Solid mark cs) :
    mark ∉ padded := by
  obtain ⟨before, after, hbefore, hafter, rfl⟩ := h
  rw [List.mem_append, List.mem_append, not_or, not_or]
  exact ⟨⟨hbefore.not_mem hmark, fun hmem => (hs mark hmem).2 rfl⟩, hafter.not_mem hmark⟩

/-- Solid parts are found again, however many blanks there are around them. -/
theorem Spaced.parts_eq {parts : List (List Char)} (h : Spaced mark parts cs) (hne : parts ≠ [])
    (hsolid : ∀ part ∈ parts, Solid mark part) :
    (splitAtEach mark (trim cs)).map trim = parts := by
  obtain ⟨padded, hpadded, rfl⟩ := h
  have hboth := (List.forall₂_and_left parts padded).mpr ⟨hsolid, hpadded⟩
  have hnot : ∀ longer ∈ padded, mark ∉ longer := by
    clear hpadded hne hsolid
    induction hboth with
    | nil => exact nofun
    | cons hpart _ ih => exact List.forall_mem_cons.mpr ⟨hpart.2.not_mem hmark hpart.1, ih⟩
  have hpadded_ne : padded ≠ [] := by
    rintro rfl
    cases hpadded
    exact hne rfl
  rw [map_trim_splitAtEach hmark, splitAtEach_eq, List.splitOn_intercalate mark hnot hpadded_ne,
    ← List.forall₂_eq_eq_eq, List.forall₂_map_left_iff]
  exact hboth.flip.imp fun longer part hpart => hpart.2.trim_eq hpart.1

end Cutting

end ConstraintScoring.Text
