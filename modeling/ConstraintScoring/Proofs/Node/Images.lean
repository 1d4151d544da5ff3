import ConstraintScoring.Node.Concat
import ConstraintScoring.Node.Single
import ConstraintScoring.Proofs.Node.Hearing
import ConstraintScoring.Proofs.Table.Distinct

/-!
# Nodes that answer each input on its own

A filter, a map, a flattening and a concatenation give every input a list of outputs, and the rows
of these are the image of the row of the input. `Images` says so of the inputs whose row has not
changed since the node last heard of them.
-/

namespace ConstraintScoring

section

variable {V κ : Type}

/-- What nodes of this form keep: only known inputs have outputs, and the outputs of a fresh input
have the rows of its image. -/
structure Images (inputOf : κ → TupleId) (outs : κ → List TupleId) (known fresh : κ → Prop)
    (image : Row V → Except Fault (List (Row V))) (ρ : TupleId → Row V) : Prop where
  known : ∀ k, outs k ≠ [] → known k
  image : ∀ k, fresh k → image (ρ (inputOf k)) = .ok ((outs k).map ρ)

namespace Images

theorem unheard {inputOf : κ → TupleId} {known fresh : κ → Prop}
    {image : Row V → Except Fault (List (Row V))} {ρ : TupleId → Row V} (hf : ∀ k, ¬fresh k) :
    Images inputOf (fun _ => []) known fresh image ρ :=
  ⟨fun _ hk => absurd rfl hk, fun k hk => absurd hk (hf k)⟩

variable {inputOf : κ → TupleId} {outs outs' : κ → List TupleId} {known fresh known' fresh' : κ → Prop}
  {image : Row V → Except Fault (List (Row V))} {ρ ρ' : TupleId → Row V}

/-- Rows of outputs stay, and an input whose row changes is no longer fresh. -/
theorem frame (h : Images inputOf outs known fresh image ρ)
    (houts : ∀ k, ∀ x ∈ outs k, ρ' x = ρ x)
    (hfresh : ∀ k, fresh' k → fresh k ∧ ρ' (inputOf k) = ρ (inputOf k)) :
    Images inputOf outs known fresh' image ρ' := by
  refine ⟨h.known, fun k hk => ?_⟩
  obtain ⟨hk, hrow⟩ := hfresh k hk
  rw [hrow, h.image k hk, List.map_congr_left (houts k)]

/-- An input is answered anew, and all others keep their outputs. -/
theorem answer (h : Images inputOf outs known fresh image ρ) (k₀ : κ)
    (hother : ∀ k, k ≠ k₀ → outs' k = outs k) (hrows : ∀ k, k ≠ k₀ → ∀ x ∈ outs k, ρ' x = ρ x)
    (hinput : ∀ k, fresh k → ρ' (inputOf k) = ρ (inputOf k))
    (hknown : ∀ k, k = k₀ ∨ known k → known' k) (hfresh : ∀ k, fresh' k → k = k₀ ∨ fresh k)
    (hnew : image (ρ' (inputOf k₀)) = .ok ((outs' k₀).map ρ')) :
    Images inputOf outs' known' fresh' image ρ' := by
  constructor
  · intro k hk
    by_cases hk₀ : k = k₀
    · exact hknown k (Or.inl hk₀)
    · exact hknown k (Or.inr (h.known k (hother k hk₀ ▸ hk)))
  · intro k hk
    by_cases hk₀ : k = k₀
    · subst hk₀
      exact hnew
    · have hk := (hfresh k hk).resolve_left hk₀
      rw [hinput k hk, h.image k hk, hother k hk₀, List.map_congr_left (hrows k hk₀)]

/-- An input is forgotten together with its outputs. -/
theorem forget (h : Images inputOf outs known fresh image ρ) (k₀ : κ)
    (hother : ∀ k, k ≠ k₀ → outs' k = outs k) (hrows : ∀ k, k ≠ k₀ → ∀ x ∈ outs k, ρ' x = ρ x)
    (hinput : ∀ k, fresh k → ρ' (inputOf k) = ρ (inputOf k)) (hgone : outs' k₀ = [])
    (hknown : ∀ k, known k → k ≠ k₀ → known' k) (hfresh : ∀ k, fresh' k → k ≠ k₀ ∧ fresh k) :
    Images inputOf outs' known' fresh' image ρ' := by
  constructor
  · intro k hk
    by_cases hk₀ : k = k₀
    · exact absurd (hk₀ ▸ hgone) hk
    · exact hknown k (h.known k (hother k hk₀ ▸ hk)) hk₀
  · intro k hk
    obtain ⟨hk₀, hk⟩ := hfresh k hk
    rw [hinput k hk, h.image k hk, hother k hk₀, List.map_congr_left (hrows k hk₀)]

end Images

end

namespace Table

variable {κ : Type} [BEq κ] {T : Table κ TupleId}

theorem get?_inj [LawfulBEq κ] (hn : T.values.Nodup) {k l : κ} {x : TupleId}
    (hk : T.get? k = some x) (hl : T.get? l = some x) : k = l := by
  obtain ⟨k', hk', hkk⟩ := mem_of_get? hk
  obtain ⟨l', hl', hll⟩ := mem_of_get? hl
  have he := List.inj_on_of_nodup_map hn hk' hl' rfl
  rw [← eq_of_beq hkk, ← eq_of_beq hll]
  exact congrArg Prod.fst he

section Staging

variable {V : Type} {W : Row V → Prop} {s : Staging V} {k : κ} {x : TupleId} {row : Row V}

theorem work_insert (hk : T.get? k = none) (hW : W row) :
    Staging.Work W s T.values (s.inserted row) (T.insert k s.arena.next).values := by
  refine (Staging.Work.refl.insert hW).perm ?_
  rw [values_insert_of_none _ hk]
  exact (List.perm_append_singleton _ _).symm

theorem work_update (hk : T.get? k = some x) (hW : W row) :
    Staging.Work W s T.values (s.updated x row) T.values :=
  Staging.Work.refl.update (mem_values_of_get? hk) hW

theorem work_retract (hk : T.get? k = some x) :
    Staging.Work W s T.values (s.retracted x) (T.erase k).values := by
  refine (Staging.Work.refl.retract (mem_values_of_get? hk)).perm ?_
  simpa using (values_erase_of_some hk).erase x

end Staging

/-- The outputs of a key in a table with at most one of them. -/
def single (T : Table κ TupleId) (k : κ) : List TupleId := (T.get? k).toList

theorem single_of_some {k : κ} {x : TupleId} (h : T.get? k = some x) : T.single k = [x] := by
  simp [single, h]

theorem single_of_none {k : κ} (h : T.get? k = none) : T.single k = [] := by
  simp [single, h]

theorem mem_values_of_single {k : κ} {x : TupleId} (h : x ∈ T.single k) : x ∈ T.values := by
  exact mem_values_of_get? (by simpa [single] using h)

theorem single_insert [LawfulBEq κ] (k l : κ) (x : TupleId) :
    (T.insert k x).single l = if k == l then [x] else T.single l := by
  unfold single
  rw [get?_insert]
  by_cases hkl : k == l <;> simp [hkl]

theorem single_erase [LawfulBEq κ] (hd : T.Distinct) (k l : κ) :
    (T.erase k).single l = if k == l then [] else T.single l := by
  unfold single
  rw [hd.get?_erase]
  by_cases hkl : k == l <;> simp [hkl]

end Table

section Single

variable {V κ : Type} [BEq κ] {W : Row V → Prop} {T : Table κ TupleId}
  {inputOf : κ → TupleId} {known fresh : κ → Prop}
  {image : Row V → Except Fault (List (Row V))} {s : Staging V} {I : TupleId → Prop}
  {k : κ} {x : TupleId} {row : Row V}

/-- One output for each of some inputs, by a table: the part of the books of a node that its
outputs make up. -/
structure SingleImages (T : Table κ TupleId) (inputOf : κ → TupleId) (known fresh : κ → Prop)
    (image : Row V → Except Fault (List (Row V))) (ρ : TupleId → Row V) : Prop where
  distinct : T.Distinct
  images : Images inputOf T.single known fresh image ρ

namespace SingleImages

theorem unheard {ρ : TupleId → Row V} (hf : ∀ k, ¬fresh k) :
    SingleImages (.empty : Table κ TupleId) inputOf known fresh image ρ :=
  ⟨Table.distinct_empty, .unheard hf⟩

theorem frame {fresh' : κ → Prop} {ρ ρ' : TupleId → Row V}
    (h : SingleImages T inputOf known fresh image ρ) (houts : ∀ x ∈ T.values, ρ' x = ρ x)
    (hfresh : ∀ k, fresh' k → fresh k ∧ ρ' (inputOf k) = ρ (inputOf k)) :
    SingleImages T inputOf known fresh' image ρ' :=
  ⟨h.distinct, h.images.frame (fun _ x hx => houts x (Table.mem_values_of_single hx)) hfresh⟩

variable {known' fresh' : κ → Prop}

theorem insert [LawfulBEq κ] (h : SingleImages T inputOf known fresh image s.arena.row)
    (hc : s.Clear T.values I) (hin : ∀ k, fresh k → I (inputOf k)) (hk₀ : I (inputOf k))
    (himage : image (s.arena.row (inputOf k)) = .ok [row])
    (hknown : ∀ l, l = k ∨ known l → known' l) (hfresh : ∀ l, fresh' l → l = k ∨ fresh l) :
    SingleImages (T.insert k s.arena.next) inputOf known' fresh' image
      (s.inserted row).arena.row := by
  have hrow := Staging.row_inserted (r := row) hc.tended.valid
  refine ⟨h.distinct.insert _ _, h.images.answer k ?_ ?_ ?_ hknown hfresh ?_⟩
  · intro l hl
    rw [Table.single_insert, if_neg (by simpa using Ne.symm hl)]
  · intro l hl x hx
    have hx := Table.mem_values_of_single hx
    have hxn : x ≠ s.arena.next := fun hxn => hc.next_not_mem (hxn ▸ hx)
    rw [hrow, if_neg hxn]
  · exact fun l hl => hc.row_inserted (hin l hl)
  · rw [hc.row_inserted hk₀, himage, Table.single_insert, if_pos BEq.rfl]
    simp [hrow]

theorem update [LawfulBEq κ] (h : SingleImages T inputOf known fresh image s.arena.row)
    (hc : s.Clear T.values I) (hin : ∀ k, fresh k → I (inputOf k)) (hk₀ : I (inputOf k))
    (hk : T.get? k = some x) (himage : image (s.arena.row (inputOf k)) = .ok [row])
    (hknown : ∀ l, l = k ∨ known l → known' l) (hfresh : ∀ l, fresh' l → l = k ∨ fresh l) :
    SingleImages T inputOf known' fresh' image (s.updated x row).arena.row := by
  have hx := Table.mem_values_of_get? hk
  have hrow := Staging.row_updated (r := row) (hc.tended.active x hx) (hc.tended.occupied hx)
  have hinput : ∀ t, I t → (s.updated x row).arena.row t = s.arena.row t := fun t ht => by
    rw [hrow, if_neg fun (htx : t = x) => hc.apart t ht (htx ▸ hx)]
  refine ⟨h.distinct, h.images.answer k (fun _ _ => rfl) ?_ ?_ hknown hfresh ?_⟩
  · intro l hl y hy
    have hy : T.get? l = some y := by simpa [Table.single] using hy
    rw [hrow, if_neg fun (hyx : y = x) => hl (Table.get?_inj hc.tended.nodup hy (hyx ▸ hk))]
  · exact fun l hl => hinput _ (hin l hl)
  · rw [hinput _ hk₀, himage, Table.single_of_some hk]
    simp [hrow]

theorem retract [LawfulBEq κ] (h : SingleImages T inputOf known fresh image s.arena.row)
    (hc : s.Clear T.values I) (hk : T.get? k = some x)
    (himage : image (s.arena.row (inputOf k)) = .ok [])
    (hknown : ∀ l, l = k ∨ known l → known' l) (hfresh : ∀ l, fresh' l → l = k ∨ fresh l) :
    SingleImages (T.erase k) inputOf known' fresh' image (s.retracted x).arena.row := by
  have hrow := Staging.row_retracted (hc.tended.active x (Table.mem_values_of_get? hk))
  refine ⟨h.distinct.erase k, h.images.answer k ?_ (fun _ _ y _ => hrow y)
    (fun _ _ => hrow _) hknown hfresh ?_⟩
  · intro l hl
    rw [Table.single_erase h.distinct, if_neg (by simpa using Ne.symm hl)]
  · rw [hrow, himage, Table.single_erase h.distinct, if_pos BEq.rfl]
    rfl

/-- An input without output and with an empty image needs none. -/
theorem skip {ρ : TupleId → Row V} (h : SingleImages T inputOf known fresh image ρ)
    (hk : T.get? k = none) (himage : image (ρ (inputOf k)) = .ok [])
    (hknown : ∀ l, l = k ∨ known l → known' l) (hfresh : ∀ l, fresh' l → l = k ∨ fresh l) :
    SingleImages T inputOf known' fresh' image ρ :=
  ⟨h.distinct, h.images.answer k (fun _ _ => rfl) (fun _ _ _ _ => rfl) (fun _ _ => rfl)
    hknown hfresh (by rw [himage, Table.single_of_none hk]; rfl)⟩

theorem forget [LawfulBEq κ] (h : SingleImages T inputOf known fresh image s.arena.row)
    (hc : s.Clear T.values I) (hk : T.get? k = some x)
    (hknown : ∀ l, known l → l ≠ k → known' l) (hfresh : ∀ l, fresh' l → l ≠ k ∧ fresh l) :
    SingleImages (T.erase k) inputOf known' fresh' image (s.retracted x).arena.row := by
  have hrow := Staging.row_retracted (hc.tended.active x (Table.mem_values_of_get? hk))
  refine ⟨h.distinct.erase k, h.images.forget k ?_ (fun _ _ y _ => hrow y)
    (fun _ _ => hrow _) ?_ hknown hfresh⟩
  · intro l hl
    rw [Table.single_erase h.distinct, if_neg (by simpa using Ne.symm hl)]
  · rw [Table.single_erase h.distinct, if_pos BEq.rfl]

/-- A key that nothing is known of has no output. -/
theorem get?_eq_none {ρ : TupleId → Row V} (h : SingleImages T inputOf known fresh image ρ)
    (hk : ¬known k) : T.get? k = none := by
  by_contra hne
  obtain ⟨x, hx⟩ := Option.ne_none_iff_exists'.mp hne
  exact hk (h.images.known k (by simp [Table.single_of_some hx]))

theorem forget_none {ρ : TupleId → Row V} (h : SingleImages T inputOf known fresh image ρ)
    (hk : T.get? k = none) (hknown : ∀ l, known l → l ≠ k → known' l)
    (hfresh : ∀ l, fresh' l → l ≠ k ∧ fresh l) :
    SingleImages T inputOf known' fresh' image ρ :=
  ⟨h.distinct, h.images.forget k (fun _ _ => rfl) (fun _ _ _ _ => rfl) (fun _ _ => rfl)
    (Table.single_of_none hk) hknown hfresh⟩

end SingleImages

end Single

end ConstraintScoring
