import ConstraintScoring.Proofs.Node.Kind

/-!
# What a node leaves alone

Whatever a node hears of, it writes to none but its own outputs and the tuples that it makes on the
way, even if a fault stops it. So the row that a fault is reported on is the row that the node was
told of.
-/

namespace ConstraintScoring

variable {V S α β : Type}

namespace Table

variable {κ : Type} [BEq κ] {T : Table κ α} {k : κ} {a b : α}

theorem mem_values_of_erase (h : a ∈ (T.erase k).values) : a ∈ T.values :=
  (List.eraseP_sublist.map _).mem h

theorem mem_values_of_eraseSwap (h : a ∈ (T.eraseSwap k).values) : a ∈ T.values :=
  mem_values_of_erase ((values_eraseSwap T k).mem_iff.mp h)

theorem mem_values_of_insert (h : a ∈ (T.insert k b).values) : a = b ∨ a ∈ T.values :=
  (List.mem_cons.mp ((values_insert T k b).mem_iff.mp h)).imp id mem_values_of_erase

theorem mem_values_of_modify {f : α → α} (h : a ∈ (T.modify k f).values) :
    a ∈ T.values ∨ ∃ b ∈ T.values, a = f b := by
  unfold Table.modify at h
  split at h
  · rename_i b hb
    exact (mem_values_of_insert h).symm.imp id fun ha => ⟨b, mem_values_of_get? hb, ha⟩
  · exact Or.inl h

/-- What is shown of the values after writing was shown before or is shown of the new one. -/
theorem mem_shown_of_insert {g : α → Option β} {x : β}
    (h : x ∈ (T.insert k a).values.filterMap g) : g a = some x ∨ x ∈ T.values.filterMap g := by
  obtain ⟨b, hb, hx⟩ := List.mem_filterMap.mp h
  rcases mem_values_of_insert hb with rfl | hb
  · exact Or.inl hx
  · exact Or.inr (List.mem_filterMap.mpr ⟨b, hb, hx⟩)

theorem mem_shown_of_erase {g : α → Option β} {x : β}
    (h : x ∈ (T.erase k).values.filterMap g) : x ∈ T.values.filterMap g := by
  obtain ⟨b, hb, hx⟩ := List.mem_filterMap.mp h
  exact List.mem_filterMap.mpr ⟨b, mem_values_of_erase hb, hx⟩

theorem mem_leaves_of_insert {T : Table κ (Table κ α)} {U : Table κ α}
    (h : a ∈ (T.insert k U).leaves) : a ∈ U.values ∨ a ∈ T.leaves := by
  obtain ⟨W, hW, ha⟩ := List.mem_flatMap.mp h
  rcases mem_values_of_insert hW with rfl | hW
  · exact Or.inl ha
  · exact Or.inr (List.mem_flatMap.mpr ⟨W, hW, ha⟩)

theorem mem_leaves_of_drop {T : Table κ (Table κ α)} {l : κ}
    (h : a ∈ (T.modify k (·.eraseSwap l)).leaves) : a ∈ T.leaves := by
  obtain ⟨W, hW, ha⟩ := List.mem_flatMap.mp h
  rcases mem_values_of_modify hW with hW | ⟨U, hU, rfl⟩
  · exact List.mem_flatMap.mpr ⟨W, hW, ha⟩
  · exact List.mem_flatMap.mpr ⟨U, hU, mem_values_of_eraseSwap ha⟩

theorem ne_of_get? (ha : a ∉ T.values) (hk : T.get? k = some b) : b ≠ a := fun hab =>
  ha (hab ▸ mem_values_of_get? hk)

end Table

namespace Arena

variable {a : Arena V} {t id : TupleId} {c : Slot V} {r : Row V}

theorem row_put_other (ht : t ≠ id) : (a.put id c).row t = a.row t := by
  unfold row put
  simp [Ne.symm ht]

/-- Making a tuple leaves the others as they are. -/
theorem create_other (ht : a.Occupied t) : (a.create r).2.Occupied t ∧
    (a.create r).2.row t = a.row t ∧ (a.create r).1 ≠ t := by
  have hnew : (a.create r).1 ≠ t := by
    rw [create_fst]
    rintro rfl
    exact a.not_occupied_next ht
  obtain ⟨hlt, hfree⟩ := ht
  cases hf : a.free with
  | nil =>
      refine ⟨?_, ?_, hnew⟩
      · simp [create, hf, Occupied, Nat.lt_succ_of_lt hlt]
      · simp [create, hf, Arena.row, Array.getElem?_push, Nat.ne_of_lt hlt]
  | cons id free =>
      rw [hf, List.mem_cons, not_or] at hfree
      refine ⟨?_, ?_, hnew⟩
      · simp [create, hf, Occupied, hlt, hfree.2]
      · simpa [create, hf, Arena.row] using row_put_other (a := a) (c := ⟨r, .creating⟩) hfree.1

end Arena

namespace Stage

/-- Work that leaves a tuple as it is, whether it comes to an end or is stopped; its results, if it has
any, are such. -/
def Spares (t : TupleId) (x : Stage V α) (P : α → Prop) : Prop :=
  ∀ s : Staging V, s.arena.Occupied t →
    (x.run.run s).2.arena.Occupied t ∧ (x.run.run s).2.arena.row t = s.arena.row t ∧
      ∀ a, (x.run.run s).1 = .ok a → P a

variable {t id : TupleId} {x : Stage V α} {f : α → Stage V β} {P P' : α → Prop} {Q : β → Prop}

theorem Spares.mono (h : x.Spares t P) (hP : ∀ a, P a → P' a) : x.Spares t P' := fun s hs =>
  ⟨(h s hs).1, (h s hs).2.1, fun a ha => hP a ((h s hs).2.2 a ha)⟩

theorem Spares.of_pure {a : α} (h : P a) : (pure a : Stage V α).Spares t P := fun _ hs =>
  ⟨hs, rfl, fun _ ha => Except.ok.inj ha ▸ h⟩

theorem Spares.of_throw (e : Fault) (P : α → Prop) : (throw e : Stage V α).Spares t P := fun _ hs =>
  ⟨hs, rfl, nofun⟩

theorem Spares.of_except {x : Except Fault α} (h : ∀ a, x = .ok a → P a) :
    (ofExcept x : Stage V α).Spares t P := fun _ hs => ⟨hs, rfl, h⟩

theorem Spares.of_rowOf {P : Row V → Prop} (h : ∀ row, P row) : (rowOf id).Spares t P := fun _ hs =>
  ⟨hs, rfl, fun row _ => h row⟩

theorem Spares.bind (h : x.Spares t P) (hf : ∀ a, P a → (f a).Spares t Q) :
    (x >>= f).Spares t Q := by
  intro s hs
  rw [Outcome.run_bind]
  obtain ⟨hocc, hrow, hP⟩ := h s hs
  rcases hx : x.run.run s with ⟨e | a, s'⟩ <;> rw [hx] at hocc hrow hP
  · exact ⟨hocc, hrow, nofun⟩
  · obtain ⟨hocc', hrow', hQ⟩ := hf a (hP a rfl) s' hocc
    exact ⟨hocc', hrow'.trans hrow, hQ⟩

/-- Nothing needs to be known of what comes before. -/
theorem Spares.after (h : x.Spares t fun _ => True) (hf : ∀ a, (f a).Spares t Q) :
    (x >>= f).Spares t Q := h.bind fun a _ => hf a

theorem Spares.of_insert (row : Row V) : (insert row).Spares t (· ≠ t) := by
  intro s hs
  obtain ⟨hocc, hrow, hnew⟩ := Arena.create_other (r := row) hs
  exact ⟨hocc, hrow, fun a ha => Except.ok.inj ha ▸ hnew⟩

theorem Spares.of_update (hid : id ≠ t) (row : Row V) : (update id row).Spares t fun _ => True := by
  intro s hs
  unfold update
  rw [Outcome.run_get_bind]
  have hput : ∀ c : Slot V, (s.arena.put id c).Occupied t ∧ (s.arena.put id c).row t = s.arena.row t :=
    fun c => ⟨(Arena.occupied_put t).mpr hs, Arena.row_put_other hid.symm⟩
  cases s.arena.state id with
  | ok | creating | updating => exact ⟨(hput _).1, (hput _).2, fun _ _ => trivial⟩
  | dying | aborting | dead => exact ⟨hs, rfl, fun _ _ => trivial⟩

theorem Spares.of_retract : (retract id : Stage V Unit).Spares t fun _ => True := by
  intro s hs
  unfold retract
  rw [Outcome.run_get_bind]
  have hset : ∀ c, (s.arena.setState id c).Occupied t ∧
      (s.arena.setState id c).row t = s.arena.row t :=
    fun c => ⟨(Arena.occupied_setState t).mpr hs, Arena.row_setState t⟩
  cases s.arena.state id with
  | ok | creating | updating => exact ⟨(hset _).1, (hset _).2, fun _ _ => trivial⟩
  | dying | aborting | dead => exact ⟨hs, rfl, fun _ _ => trivial⟩

theorem Spares.of_retractAll {ids : List TupleId} :
    (retractAll ids : Stage V Unit).Spares t fun _ => True := by
  induction ids with
  | nil => exact .of_pure trivial
  | cons id ids ih => exact Spares.of_retract.after fun _ => ih

/-- Reading a row needs nothing and says nothing. -/
theorem Spares.after_rowOf {f : Row V → Stage V β} (hf : ∀ row, (f row).Spares t Q) :
    (rowOf id >>= f).Spares t Q := Spares.after (.of_rowOf fun _ => trivial) hf

theorem Spares.after_except {x : Except Fault α} (hf : ∀ a, (f a).Spares t Q) :
    (ofExcept x >>= f).Spares t Q := Spares.after (.of_except fun _ _ => trivial) hf

end Stage

section Single

variable {t input : TupleId} {e : Event}

theorem FilterNode.onEvent_spares {n : FilterNode V} (h : t ∉ n.outputs.values) :
    (n.onEvent e input).Spares t fun _ => True := by
  have hdrop : (n.drop input).Spares t fun _ => True := by
    unfold drop
    split
    · exact Stage.Spares.of_retract.after fun _ => .of_pure trivial
    · exact .of_pure trivial
  have hrefresh : (n.refresh input).Spares t fun _ => True := by
    unfold refresh
    refine .after_rowOf fun row => .after_except fun passes => ?_
    split
    · rename_i out hout
      exact (Stage.Spares.of_update (Table.ne_of_get? h hout) row).after fun _ => .of_pure trivial
    · exact hdrop
    · exact (Stage.Spares.of_insert row).bind fun _ _ => .of_pure trivial
    · exact .of_pure trivial
  cases e with
  | insert | update => exact hrefresh
  | retract => exact hdrop

theorem MapNode.onEvent_spares {n : MapNode V} (h : t ∉ n.outputs.values) :
    (n.onEvent e input).Spares t fun _ => True := by
  have hadd : ∀ row, (n.add input row).Spares t fun _ => True := fun row =>
    (Stage.Spares.of_insert row).bind fun _ _ => .of_pure trivial
  unfold onEvent
  cases e with
  | insert => exact .after_rowOf fun row => .after_except hadd
  | update =>
      refine .after_rowOf fun row => .after_except fun row => ?_
      split
      · rename_i out hout
        exact (Stage.Spares.of_update (Table.ne_of_get? h hout) row).after fun _ => .of_pure trivial
      · exact hadd row
  | retract =>
      dsimp only
      split
      · exact Stage.Spares.of_retract.after fun _ => .of_pure trivial
      · exact .of_pure trivial

theorem FlattenNode.refit_spares {outs : List TupleId} {rows : List (Row V)} (h : t ∉ outs) :
    (refit outs rows).Spares t fun _ => True := by
  induction rows generalizing outs with
  | nil =>
      cases outs <;> exact Stage.Spares.of_retractAll.after fun _ => .of_pure trivial
  | cons row rows ih =>
      cases outs with
      | nil =>
          refine (Stage.Spares.of_insert row).bind fun out _ => ?_
          exact (ih List.not_mem_nil).after fun _ => .of_pure trivial
      | cons out outs =>
          obtain ⟨hout, houts⟩ := not_or.mp (fun hor => h (List.mem_cons.mpr hor))
          refine (Stage.Spares.of_update (Ne.symm hout) row).after fun _ => ?_
          exact (ih houts).after fun _ => .of_pure trivial

theorem FlattenNode.onEvent_spares {n : FlattenNode V} (h : t ∉ n.outputIds) :
    (n.onEvent e input).Spares t fun _ => True := by
  have houts : t ∉ n.outputs.getD input [] := by
    unfold Table.getD
    cases hget : n.outputs.get? input with
    | none => exact List.not_mem_nil
    | some outs => exact fun ht => h (List.mem_flatten.mpr ⟨outs, Table.mem_values_of_get? hget, ht⟩)
  unfold onEvent
  cases e with
  | insert | update =>
      refine .after_rowOf fun row => .after_except fun rows => (refit_spares houts).after fun outs => ?_
      split <;> exact .of_pure trivial
  | retract => exact Stage.Spares.of_retractAll.after fun _ => .of_pure trivial

theorem ConcatNode.onEvent_spares {n : ConcatNode} {side : Side} (h : t ∉ n.outputs.values) :
    (n.onEvent side e input : Stage V ConcatNode).Spares t fun _ => True := by
  have hadd : (n.add side input : Stage V ConcatNode).Spares t fun _ => True :=
    .after_rowOf fun row => (Stage.Spares.of_insert row).bind fun _ _ => .of_pure trivial
  unfold onEvent
  cases e with
  | insert => exact hadd
  | update =>
      dsimp only
      split
      · rename_i out hout
        refine .after_rowOf fun row => ?_
        exact (Stage.Spares.of_update (Table.ne_of_get? h hout) row).after fun _ => .of_pure trivial
      · exact hadd
  | retract =>
      dsimp only
      split
      · exact Stage.Spares.of_retract.after fun _ => .of_pure trivial
      · exact .of_pure trivial

end Single

namespace JoinNode

variable {n : JoinNode V} {side : Side} {t input l r : TupleId} {e : Event}

theorem addPair_spares {out : TupleId} (h : t ∉ n.outputIds) (hout : out ≠ t) :
    t ∉ (n.addPair l r out).outputIds := by
  intro ht
  rcases Table.mem_leaves_of_insert ht with ht | ht
  · rcases Table.mem_values_of_insert ht with rfl | ht
    · exact hout rfl
    · exact h ((Table.leaves_perm n.byLeft l).mem_iff.mpr (List.mem_append_left _ ht))
  · exact h ht

theorem refreshPair_spares (h : t ∉ n.outputIds) :
    (n.refreshPair l r).Spares t fun n' => t ∉ n'.outputIds := by
  unfold refreshPair
  refine .after_rowOf fun left => .after_rowOf fun right => .after_except fun passes => ?_
  split
  · rename_i out hout
    have hne : out ≠ t := fun hot => h (hot ▸ Table.mem_leaves_of_at? hout)
    exact (Stage.Spares.of_update hne _).after fun _ => .of_pure h
  · exact Stage.Spares.of_retract.after fun _ => .of_pure fun ht => h (Table.mem_leaves_of_drop ht)
  · exact (Stage.Spares.of_insert _).bind fun out hout => .of_pure (addPair_spares h hout)
  · exact .of_pure h

theorem refreshAll_spares {others : List TupleId} (h : t ∉ n.outputIds) :
    (n.refreshAll side input others).Spares t fun n' => t ∉ n'.outputIds := by
  induction others generalizing n with
  | nil => exact .of_pure h
  | cons other others ih => exact (refreshPair_spares h).bind fun n' hn' => ih hn'

theorem retractRights_spares {byRight : Table TupleId (List TupleId)}
    {outs : List (TupleId × TupleId)} :
    (retractRights l byRight outs : Stage V _).Spares t fun _ => True := by
  induction outs generalizing byRight with
  | nil => exact .of_pure trivial
  | cons entry outs ih => exact Stage.Spares.of_retract.after fun _ => ih

theorem retractLefts_spares {byLeft : Table TupleId (Table TupleId TupleId)} {ls : List TupleId}
    (h : t ∉ byLeft.leaves) :
    (retractLefts r byLeft ls : Stage V _).Spares t fun byLeft' => t ∉ byLeft'.leaves := by
  induction ls generalizing byLeft with
  | nil => exact .of_pure h
  | cons l ls ih =>
      unfold retractLefts
      split
      · exact Stage.Spares.of_retract.after fun _ => ih fun ht => h (Table.mem_leaves_of_drop ht)
      · exact ih h

variable [Cell V]

theorem retract_spares (h : t ∉ n.outputIds) :
    (n.retract side input).Spares t fun n' => t ∉ n'.outputIds := by
  unfold retract
  cases side with
  | left =>
      refine retractRights_spares.after fun byRight => .of_pure fun ht => h ?_
      exact (Table.leaves_perm n.byLeft input).mem_iff.mpr (List.mem_append_right _ ht)
  | right => exact (retractLefts_spares h).bind fun byLeft hbyLeft => .of_pure hbyLeft

theorem insert_spares (h : t ∉ n.outputIds) :
    (n.insert side input).Spares t fun n' => t ∉ n'.outputIds := by
  unfold insert
  refine .after_rowOf fun row => .after_except fun k => refreshAll_spares ?_
  cases side <;> exact h

theorem onEvent_spares (h : t ∉ n.outputIds) : (n.onEvent side e input).Spares t fun _ => True := by
  refine Stage.Spares.mono (P := fun n' => t ∉ n'.outputIds) ?_ fun _ _ => trivial
  cases e with
  | insert => exact insert_spares h
  | retract => exact retract_spares h
  | update =>
      change (n.update side input).Spares t _
      unfold update
      refine .after_rowOf fun row => .after_except fun k => ?_
      split
      · exact refreshAll_spares h
      · exact (retract_spares h).bind fun n' hn' => insert_spares hn'

end JoinNode

namespace ExistsNode

variable {n : ExistsNode V} {t l r : TupleId} {e : Event}

theorem not_mem_outputIds {output : Option TupleId} (h : t ∉ n.outputIds) (hout : output ≠ some t)
    (l : TupleId) (count : Nat) (matched : List TupleId) :
    t ∉ outputIds { n with lefts := n.lefts.insert l ⟨count, matched, output⟩ } := fun ht =>
  (Table.mem_shown_of_insert ht).elim hout h

theorem output_ne {entry : LeftEntry} (h : t ∉ n.outputIds) (hl : n.lefts.get? l = some entry) :
    entry.output ≠ some t := fun hout => h (mem_outputIds hl hout)

theorem refreshOutput_spares {rowChanged : Bool} (h : t ∉ n.outputIds) :
    (n.refreshOutput l rowChanged).Spares t fun n' => t ∉ n'.outputIds := by
  unfold refreshOutput
  split
  · exact .of_pure h
  · rename_i entry hentry
    split
    · rename_i out hout _
      have hne : out ≠ t := fun hot => output_ne h hentry (hot ▸ hout)
      split
      · exact .after_rowOf fun row => (Stage.Spares.of_update hne row).after fun _ => .of_pure h
      · exact .of_pure h
    · exact Stage.Spares.of_retract.after fun _ => .of_pure
        (not_mem_outputIds h (Option.some_ne_none t).symm _ _ _)
    · refine .after_rowOf fun row => (Stage.Spares.of_insert row).bind fun out hout => .of_pure ?_
      exact not_mem_outputIds h (fun hot => hout (Option.some.inj hot)) _ _ _
    · exact .of_pure h

theorem attach_spares (h : t ∉ n.outputIds) :
    (n.attach l r).Spares t fun n' => t ∉ n'.outputIds := by
  unfold attach
  split
  · exact .of_pure h
  · rename_i entry hentry
    have hne : entry.output ≠ some t := output_ne h hentry
    dsimp only
    split
    · exact refreshOutput_spares (not_mem_outputIds h hne _ _ _)
    · exact .of_pure (not_mem_outputIds h hne _ _ _)

theorem detach_spares (h : t ∉ n.outputIds) :
    (n.detach l r).Spares t fun n' => t ∉ n'.outputIds := by
  unfold detach
  split
  · exact .of_pure h
  · rename_i entry hentry
    have hne : entry.output ≠ some t := output_ne h hentry
    split
    · exact .of_throw _ _
    · dsimp only
      split
      · exact refreshOutput_spares (not_mem_outputIds h hne _ _ _)
      · exact .of_pure (not_mem_outputIds h hne _ _ _)

theorem attachAll_spares {ls : List TupleId} (h : t ∉ n.outputIds) :
    (attachAll r n ls).Spares t fun n' => t ∉ n'.outputIds := by
  induction ls generalizing n with
  | nil => exact .of_pure h
  | cons l ls ih => exact (attach_spares h).bind fun n' hn' => ih hn'

theorem detachAll_spares {ls : List TupleId} (h : t ∉ n.outputIds) :
    (detachAll r n ls).Spares t fun n' => t ∉ n'.outputIds := by
  induction ls generalizing n with
  | nil => exact .of_pure h
  | cons l ls ih => exact (detach_spares h).bind fun n' hn' => ih hn'

theorem matchingLefts_spares {indexer : JoinIndexer V} {row : Row V} {ls : List TupleId} :
    (matchingLefts indexer row ls).Spares t fun _ => True := by
  induction ls with
  | nil => exact .of_pure trivial
  | cons l ls ih =>
      exact .after_rowOf fun _ => .after_except fun _ => ih.after fun _ => .of_pure trivial

theorem matchingRights_spares {indexer : JoinIndexer V} {row : Row V} {rs : List TupleId} :
    (matchingRights indexer row rs).Spares t fun _ => True := by
  induction rs with
  | nil => exact .of_pure trivial
  | cons r rs ih =>
      exact .after_rowOf fun _ => .after_except fun _ => ih.after fun _ => .of_pure trivial

variable [Cell V]

theorem forgetLeft_spares (h : t ∉ n.outputIds) :
    t ∉ (n.forgetLeft l).1.outputIds ∧ (n.forgetLeft l).2 ≠ some t := by
  unfold forgetLeft
  split
  · exact ⟨h, nofun⟩
  · rename_i entry hentry
    exact ⟨fun ht => h (Table.mem_shown_of_erase ht), output_ne h hentry⟩

theorem countLeft_spares {output : Option TupleId} {rowChanged : Bool} (h : t ∉ n.outputIds)
    (hout : output ≠ some t) : (n.countLeft l output rowChanged).Spares t fun _ => True := by
  unfold countLeft
  refine .after_rowOf fun row => .after_except fun k => matchingRights_spares.after fun matched => ?_
  have hcounted : ∀ left rights, t ∉ outputIds { n with
      left, rights, lefts := n.lefts.insert l ⟨matched.length, matched, output⟩ } :=
    fun _ _ ht => (Table.mem_shown_of_insert ht).elim hout h
  exact (refreshOutput_spares (hcounted _ _)).mono fun _ _ => trivial

theorem onEvent_spares {side : Side} {input : TupleId} (h : t ∉ n.outputIds) :
    (n.onEvent side e input).Spares t fun _ => True := by
  have hindexed : ∀ right rights, t ∉ outputIds { n with right, rights } := fun _ _ => h
  have hright : (n.onRight e input).Spares t fun _ => True := by
    unfold onRight
    cases e with
    | insert =>
        refine .after_rowOf fun row => .after_except fun k =>
          matchingLefts_spares.after fun matched => ?_
        exact (attachAll_spares (hindexed _ _)).bind fun n' _ => .of_pure trivial
    | update =>
        refine .after_rowOf fun row => .after_except fun k =>
          matchingLefts_spares.after fun current => ?_
        refine (detachAll_spares (hindexed _ _)).bind fun n₁ h₁ => ?_
        exact (attachAll_spares h₁).bind fun n₂ _ => .of_pure trivial
    | retract => exact (detachAll_spares (hindexed _ _)).mono fun _ _ => trivial
  have hleft : (n.onLeft e input).Spares t fun _ => True := by
    obtain ⟨hforgot, hout⟩ := forgetLeft_spares (l := input) h
    unfold onLeft
    cases e with
    | insert => exact countLeft_spares h nofun
    | update => exact countLeft_spares hforgot hout
    | retract =>
        dsimp only
        split
        · exact Stage.Spares.of_retract.after fun _ => .of_pure trivial
        · exact .of_pure trivial
  cases side with
  | left => exact hleft
  | right => exact hright

end ExistsNode

namespace GroupNode

variable [Cell V] {n n' : GroupNode V} {t input : TupleId} {e : Event} {k : Key V} {m : GroupMember V}

theorem output_ne {entry : GroupEntry V} (h : t ∉ n.outputIds) (hk : n.groups.get? k = some entry) :
    entry.output ≠ some t := fun hout =>
  h (List.mem_filterMap.mpr ⟨entry, Table.mem_values_of_get? hk, hout⟩)

theorem foldIn_spares (h : t ∉ n.outputIds) (hn : n.foldIn input m = .ok n') : t ∉ n'.outputIds := by
  unfold foldIn at hn
  cases hk : n.groups.get? m.key with
  | none =>
      rw [hk] at hn
      obtain ⟨accumulators, -, hn⟩ := Outcome.bind_eq_ok.mp hn
      obtain rfl := Except.ok.inj hn
      exact fun ht => (Table.mem_shown_of_insert ht).elim nofun h
  | some entry =>
      rw [hk] at hn
      have hne : entry.output ≠ some t := output_ne h hk
      obtain ⟨accumulators, -, hn⟩ := Outcome.bind_eq_ok.mp hn
      obtain rfl := Except.ok.inj hn
      exact fun ht => (Table.mem_shown_of_insert ht).elim hne h

theorem foldOut_spares (h : t ∉ n.outputIds) (hn : n.foldOut m = .ok n') : t ∉ n'.outputIds := by
  unfold foldOut at hn
  split at hn
  · cases hn
  · rename_i entry hk
    have hne : entry.output ≠ some t := output_ne h hk
    obtain ⟨accumulators, -, hn⟩ := Outcome.bind_eq_ok.mp hn
    obtain rfl := Except.ok.inj hn
    exact fun ht => (Table.mem_shown_of_insert ht).elim hne h

theorem refresh_spares (h : t ∉ n.outputIds) :
    (n.refresh k).Spares t fun n' => t ∉ n'.outputIds := by
  unfold refresh
  split
  · exact .of_pure h
  · rename_i entry hk
    have hne := output_ne h hk
    split
    · have hgone : ∀ spare, t ∉ outputIds { n with groups := n.groups.erase k, spare } :=
        fun _ ht => h (Table.mem_shown_of_erase ht)
      split
      · exact Stage.Spares.of_retract.after fun _ => .of_pure (hgone _)
      · exact .of_pure (hgone _)
    · split
      · rename_i out hout
        have hother : out ≠ t := fun hot => hne (hout.trans (congrArg some hot))
        exact (Stage.Spares.of_update hother _).after fun _ => .of_pure h
      · refine (Stage.Spares.of_insert _).bind fun out hout => .of_pure fun ht => ?_
        exact (Table.mem_shown_of_insert ht).elim (fun hot => hout (Option.some.inj hot)) h

theorem add_spares (h : t ∉ n.outputIds) : (n.add input).Spares t fun _ => True := by
  unfold add
  refine .after_rowOf fun row => .after_except fun m => ?_
  refine Stage.Spares.bind (.of_except fun n' hn' => foldIn_spares h hn') fun n' hn' => ?_
  exact (refresh_spares hn').mono fun _ _ => trivial

theorem onEvent_spares (h : t ∉ n.outputIds) : (n.onEvent e input).Spares t fun _ => True := by
  have hleft : ∀ members, t ∉ outputIds { n with members } := fun _ => h
  unfold onEvent
  cases e with
  | insert => exact add_spares h
  | update =>
      dsimp only
      split
      · exact add_spares h
      · rename_i previous _
        refine Stage.Spares.bind (.of_except fun n₁ hn₁ => foldOut_spares (hleft _) hn₁) fun n₁ h₁ => ?_
        refine .after_rowOf fun row => .after_except fun m => ?_
        refine Stage.Spares.bind (.of_except fun n₂ hn₂ => foldIn_spares h₁ hn₂) fun n₂ h₂ => ?_
        split
        · exact (refresh_spares h₂).mono fun _ _ => trivial
        · refine (refresh_spares h₂).bind fun n₃ h₃ => ?_
          exact (refresh_spares h₃).mono fun _ _ => trivial
  | retract =>
      dsimp only
      split
      · exact .of_pure trivial
      · refine Stage.Spares.bind (.of_except fun n₁ hn₁ => foldOut_spares (hleft _) hn₁) fun n₁ h₁ => ?_
        exact (refresh_spares h₁).mono fun _ _ => trivial

end GroupNode

/-- Whatever a node hears of, it writes to none of the tuples that others made. -/
theorem NodeKind.onEvent_spares [Cell V] {k : NodeKind V S} {side : Side} {e : Event}
    {t input : TupleId} (h : t ∉ k.outputIds) :
    (k.onEvent side e input).Spares t fun _ => True := by
  cases k with
  | filter n => exact (FilterNode.onEvent_spares h).after fun _ => .of_pure trivial
  | map n => exact (MapNode.onEvent_spares h).after fun _ => .of_pure trivial
  | flatten n => exact (FlattenNode.onEvent_spares h).after fun _ => .of_pure trivial
  | concat n => exact (ConcatNode.onEvent_spares h).after fun _ => .of_pure trivial
  | join n => exact (JoinNode.onEvent_spares h).after fun _ => .of_pure trivial
  | «exists» n => exact (ExistsNode.onEvent_spares h).after fun _ => .of_pure trivial
  | group n => exact (GroupNode.onEvent_spares h).after fun _ => .of_pure trivial
  | source n | foreBridge side | aftBridge | score n => exact .of_pure trivial

end ConstraintScoring
