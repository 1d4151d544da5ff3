import ConstraintScoring.Proofs.Node.Images

/-!
# Filters, maps, flattenings and concatenations

Each of these nodes is told of its inputs one event at a time, and after every event its outputs
are the images of the inputs that have not changed meanwhile.
-/

namespace ConstraintScoring

variable {V : Type}

variable {W : Row V → Prop} {h : Hearing} {s : Staging V} {t : TupleId}

namespace FilterNode

/-- The row itself, or nothing. -/
def image (n : FilterNode V) (row : Row V) : Except Fault (List (Row V)) :=
  (n.accepts row).map fun b => if b then [row] else []

def Raises (n : FilterNode V) (f : Fault) : Prop := ∃ row, n.accepts row = .error f

def Books (n : FilterNode V) (h : Hearing) (ρ : TupleId → Row V) : Prop :=
  SingleImages n.outputs id (h.known .left) (h.fresh .left) n.image ρ

/-- What hearing of an event leads to. -/
def Heard (W : Row V → Prop) (n : FilterNode V) (s : Staging V) (h : Hearing) (n' : FilterNode V)
    (s' : Staging V) : Prop :=
  Staging.Work W s n.outputs.values s' n'.outputs.values ∧ n'.Books h s'.arena.row ∧
    n'.accepts = n.accepts

variable {n : FilterNode V}

theorem drop_of_some {out : TupleId} {R : Fault → Prop}
    {Q : FilterNode V → Staging V → Prop} (hout : n.outputs.get? t = some out)
    (ha : (s.arena.state out).isActive)
    (h : Q { n with outputs := n.outputs.erase t } (s.retracted out)) :
    (n.drop t).Ensures s Q R := by
  unfold drop
  simp only [hout]
  exact .of_bind (.of_retract ha (.of_pure h))

theorem refresh_ensures (hb : n.Books h s.arena.row)
    (hc : s.Clear n.outputs.values (h.inputs .left t)) (hW : W (s.arena.row t)) :
    (n.refresh t).Ensures s (n.Heard W s (h.hear .left .insert t))
      fun f => n.accepts (s.arena.row t) = .error f := by
  have hfresh : ∀ k, h.fresh .left k → h.inputs .left t (id k) := fun k hk =>
    Hearing.inputs_of_fresh hk
  have ht : h.inputs .left t (id t) := h.inputs_self .left t
  have hknown' : ∀ l, l = t ∨ h.known .left l → (h.hear .left .insert t).known .left l :=
    fun l => Or.imp (fun hl => ⟨rfl, hl⟩) id
  have hfresh' : ∀ l, (h.hear .left .insert t).fresh .left l → l = t ∨ h.fresh .left l :=
    fun l => Or.imp (fun hl => hl.2) id
  unfold refresh
  refine .of_bind (.of_rowOf (.of_bind (.of_except (fun passes hpass => ?_) fun f hf => hf)))
  have himage : n.image (s.arena.row t) = .ok (if passes then [s.arena.row t] else []) := by
    simp [image, hpass, Except.map]
  cases hk : n.outputs.get? t with
  | some out =>
      have ha := hc.tended.active out (Table.mem_values_of_get? hk)
      cases passes with
      | true =>
          refine .of_bind (.of_update ha (.of_pure ⟨Table.work_update hk hW, ?_, rfl⟩))
          exact hb.update hc hfresh ht hk himage hknown' hfresh'
      | false =>
          refine drop_of_some hk ha ⟨Table.work_retract hk, ?_, rfl⟩
          exact hb.retract hc hk himage hknown' hfresh'
  | none =>
      cases passes with
      | true =>
          refine .of_bind (.of_insert (.of_pure ⟨Table.work_insert hk hW, ?_, rfl⟩))
          exact hb.insert hc hfresh ht himage hknown' hfresh'
      | false => exact .of_pure ⟨.refl, hb.skip hk himage hknown' hfresh', rfl⟩

theorem onEvent_ensures {e : Event} (hb : n.Books h s.arena.row)
    (hc : s.Clear n.outputs.values (h.inputs .left t)) (hW : W (s.arena.row t)) :
    (n.onEvent e t).Ensures s (n.Heard W s (h.hear .left e t))
      fun f => e ≠ .retract ∧ n.accepts (s.arena.row t) = .error f := by
  cases e with
  | insert => exact (refresh_ensures hb hc hW).mono (fun _ _ => id) fun _ hf => ⟨nofun, hf⟩
  | update => exact (refresh_ensures hb hc hW).mono (fun _ _ => id) fun _ hf => ⟨nofun, hf⟩
  | retract =>
      have hknown' : ∀ l, h.known .left l → l ≠ t → (h.hear .left .retract t).known .left l :=
        fun l hl hlt => ⟨hl, fun hl' => hlt hl'.2⟩
      have hfresh' : ∀ l, (h.hear .left .retract t).fresh .left l → l ≠ t ∧ h.fresh .left l :=
        fun l hl => ⟨fun hlt => hl.2 ⟨rfl, hlt⟩, hl.1⟩
      cases hk : n.outputs.get? t with
      | some out =>
          have ha := hc.tended.active out (Table.mem_values_of_get? hk)
          refine drop_of_some hk ha ⟨Table.work_retract hk, ?_, rfl⟩
          exact hb.forget hc hk hknown' hfresh'
      | none =>
          have hdrop : n.drop t = pure n := by simp [drop, hk]
          unfold onEvent
          rw [hdrop]
          exact .of_pure ⟨.refl, hb.forget_none hk hknown' hfresh', rfl⟩

end FilterNode

namespace MapNode

def Raises (n : MapNode V) (f : Fault) : Prop := ∃ row, n.image row = .error f

def Books (n : MapNode V) (h : Hearing) (ρ : TupleId → Row V) : Prop :=
  SingleImages n.outputs id (h.known .left) (h.fresh .left)
    (fun row => (n.image row).map ([·])) ρ

def Heard (W : Row V → Prop) (n : MapNode V) (s : Staging V) (h : Hearing) (n' : MapNode V)
    (s' : Staging V) : Prop :=
  Staging.Work W s n.outputs.values s' n'.outputs.values ∧ n'.Books h s'.arena.row ∧
    n'.columns = n.columns

variable {n : MapNode V}

theorem add_ensures {row : Row V} {R : Fault → Prop} (hb : n.Books h s.arena.row)
    (hc : s.Clear n.outputs.values (h.inputs .left t)) (hk : n.outputs.get? t = none)
    (hrow : n.image (s.arena.row t) = .ok row) (hW : W row) :
    (n.add t row).Ensures s (n.Heard W s (h.hear .left .insert t)) R := by
  refine .of_bind (.of_insert (.of_pure ⟨Table.work_insert hk hW, ?_, rfl⟩))
  exact hb.insert hc (fun k hk => Hearing.inputs_of_fresh hk) (h.inputs_self .left t)
    (by simp [hrow, Except.map]) (fun l => Or.imp (fun hl => ⟨rfl, hl⟩) id)
    fun l => Or.imp (fun hl => hl.2) id

theorem onEvent_ensures {e : Event} (hb : n.Books h s.arena.row) (he : h.Expects .left e t)
    (hc : s.Clear n.outputs.values (h.inputs .left t))
    (hW : ∀ row, n.image (s.arena.row t) = .ok row → W row) :
    (n.onEvent e t).Ensures s (n.Heard W s (h.hear .left e t))
      fun f => e ≠ .retract ∧ n.image (s.arena.row t) = .error f := by
  cases e with
  | insert =>
      refine .of_bind (.of_rowOf (.of_bind (.of_except (fun row hrow => ?_) fun f hf =>
        ⟨nofun, hf⟩)))
      exact add_ensures hb hc (hb.get?_eq_none he) hrow (hW row hrow)
  | update =>
      refine .of_bind (.of_rowOf (.of_bind (.of_except (fun row hrow => ?_) fun f hf =>
        ⟨nofun, hf⟩)))
      cases hk : n.outputs.get? t with
      | some out =>
          have ha := hc.tended.active out (Table.mem_values_of_get? hk)
          refine .of_bind (.of_update ha (.of_pure ⟨Table.work_update hk (hW row hrow), ?_, rfl⟩))
          exact hb.update hc (fun k hk => Hearing.inputs_of_fresh hk) (h.inputs_self .left t) hk
            (by simp [hrow, Except.map]) (fun l => Or.imp (fun hl => ⟨rfl, hl⟩) id)
            fun l => Or.imp (fun hl => hl.2) id
      | none => exact add_ensures hb hc hk hrow (hW row hrow)
  | retract =>
      have hknown' : ∀ l, h.known .left l → l ≠ t → (h.hear .left .retract t).known .left l :=
        fun l hl hlt => ⟨hl, fun hl' => hlt hl'.2⟩
      have hfresh' : ∀ l, (h.hear .left .retract t).fresh .left l → l ≠ t ∧ h.fresh .left l :=
        fun l hl => ⟨fun hlt => hl.2 ⟨rfl, hlt⟩, hl.1⟩
      unfold onEvent
      cases hk : n.outputs.get? t with
      | some out =>
          have ha := hc.tended.active out (Table.mem_values_of_get? hk)
          refine .of_bind (.of_retract ha (.of_pure ⟨Table.work_retract hk, ?_, rfl⟩))
          exact hb.forget hc hk hknown' hfresh'
      | none => exact .of_pure ⟨.refl, hb.forget_none hk hknown' hfresh', rfl⟩

end MapNode

theorem Stage.retractAll_ensures {I : TupleId → Prop} {R : Fault → Prop} (outs : List TupleId) :
    ∀ {s : Staging V} {rest : List TupleId}, s.Clear (outs ++ rest) I →
      (Stage.retractAll outs).Ensures s (fun _ s' => Staging.Work W s (outs ++ rest) s' rest ∧
        ∀ x, s'.arena.row x = s.arena.row x) R := by
  induction outs with
  | nil => exact fun _ => .of_pure ⟨.refl, fun _ => rfl⟩
  | cons out outs ih =>
      intro s rest hc
      have ha := hc.tended.active out (by simp)
      have herase : (out :: outs ++ rest).erase out = outs ++ rest := by
        simp [List.cons_append, List.erase_cons_head]
      have w : Staging.Work W s (out :: outs ++ rest) (s.retracted out) (outs ++ rest) :=
        herase ▸ Staging.Work.refl.retract (by simp)
      refine .of_bind (.of_retract ha ((ih (hc.work w)).mono (fun _ s' hs' => ?_) fun _ hf => hf))
      exact ⟨w.trans hs'.1, fun x => (hs'.2 x).trans (Staging.row_retracted ha x)⟩

namespace FlattenNode

/-- Refitting gives the rows to as many outputs, and leaves all other outputs as they are. -/
theorem refit_ensures {I : TupleId → Prop} {R : Fault → Prop} (outs : List TupleId)
    (rows : List (Row V)) :
    ∀ {s : Staging V} {rest : List TupleId}, s.Clear (outs ++ rest) I → (∀ row ∈ rows, W row) →
      (refit outs rows).Ensures s (fun outs' s' =>
        Staging.Work W s (outs ++ rest) s' (outs' ++ rest) ∧ outs'.map s'.arena.row = rows ∧
          ∀ x ∈ rest, s'.arena.row x = s.arena.row x) R := by
  induction outs, rows using refit.induct with
  | case1 outs =>
      intro s rest hc hW
      unfold refit
      refine .of_bind ((Stage.retractAll_ensures (W := W) outs hc).mono (fun _ s' hs' => ?_)
        fun _ hf => hf)
      exact .of_pure ⟨hs'.1, rfl, fun x _ => hs'.2 x⟩
  | case2 row rows ih =>
      intro s rest hc hW
      have w : Staging.Work W s rest (s.inserted row) (s.arena.next :: rest) :=
        Staging.Work.refl.insert (hW row (by simp))
      have hrow := Staging.row_inserted (r := row) hc.tended.valid
      unfold refit
      have hc' : (s.inserted row).Clear ([] ++ s.arena.next :: rest) I := hc.work w
      refine .of_bind (.of_insert (.of_bind ((ih hc'
        fun row hrow => hW row (by simp [hrow])).mono (fun outs' s' hs' => .of_pure ?_)
        fun _ hf => hf)))
      obtain ⟨w', hmap, hrest⟩ := hs'
      refine ⟨(w.trans w').perm (by simp), ?_, fun x hx => ?_⟩
      · simp [hmap, hrest s.arena.next (by simp), hrow]
      · have hne : x ≠ s.arena.next := fun hxn => hc.next_not_mem (hxn ▸ by simpa using hx)
        rw [hrest x (by simp [hx]), hrow, if_neg hne]
  | case3 out outs row rows ih =>
      intro s rest hc hW
      have ha := hc.tended.active out (by simp)
      have hrow := Staging.row_updated (r := row) ha (hc.tended.occupied (by simp))
      have w : Staging.Work W s (out :: outs ++ rest) (s.updated out row) (outs ++ out :: rest) :=
        (Staging.Work.refl.update (by simp) (hW row (by simp))).perm List.perm_middle.symm
      unfold refit
      refine .of_bind (.of_update ha (.of_bind ((ih (hc.work w)
        fun row hrow => hW row (by simp [hrow])).mono (fun outs' s' hs' => .of_pure ?_)
        fun _ hf => hf)))
      obtain ⟨w', hmap, hrest⟩ := hs'
      refine ⟨(w.trans w').perm List.perm_middle, ?_, fun x hx => ?_⟩
      · simp [hmap, hrest out (by simp), hrow]
      · have hnodup := (List.nodup_cons.mp hc.tended.nodup).1
        have hne : x ≠ out := fun hxo => hnodup (hxo ▸ List.mem_append_right _ hx)
        rw [hrest x (by simp [hx]), hrow, if_neg hne]

def Raises (n : FlattenNode V) (f : Fault) : Prop := ∃ row, n.images row = .error f

structure Books (n : FlattenNode V) (h : Hearing) (ρ : TupleId → Row V) : Prop where
  distinct : n.outputs.Distinct
  images : Images id (fun t => n.outputs.getD t []) (h.known .left) (h.fresh .left) n.images ρ

def outputIds (n : FlattenNode V) : List TupleId := n.outputs.values.flatten

def Heard (W : Row V → Prop) (n : FlattenNode V) (s : Staging V) (h : Hearing) (n' : FlattenNode V)
    (s' : Staging V) : Prop :=
  Staging.Work W s n.outputIds s' n'.outputIds ∧ n'.Books h s'.arena.row ∧ n'.expand = n.expand

variable {n : FlattenNode V}

/-- The outputs of all inputs but one. -/
def otherIds (n : FlattenNode V) (t : TupleId) : List TupleId := (n.outputs.erase t).values.flatten

theorem outputIds_perm (n : FlattenNode V) (t : TupleId) :
    n.outputIds.Perm (n.outputs.getD t [] ++ n.otherIds t) := by
  have hperm := (n.outputs.values_perm t).flatten
  unfold outputIds otherIds Table.getD
  cases hk : n.outputs.get? t <;> simpa [hk] using hperm

theorem mem_otherIds (hd : n.outputs.Distinct) {k x : TupleId} (hkt : k ≠ t)
    (hx : x ∈ n.outputs.getD k []) : x ∈ n.otherIds t := by
  unfold Table.getD at hx
  cases hk : n.outputs.get? k with
  | none => simp [hk] at hx
  | some outs =>
      have herase : (n.outputs.erase t).get? k = some outs := by
        rw [hd.get?_erase, if_neg (by simpa using Ne.symm hkt), hk]
      exact List.mem_flatten.mpr ⟨outs, Table.mem_values_of_get? herase, by simpa [hk] using hx⟩

/-- The node once an input has the given outputs. -/
def withOutputs (n : FlattenNode V) (t : TupleId) (outs : List TupleId) : FlattenNode V :=
  if outs.isEmpty then { n with outputs := n.outputs.erase t }
  else { n with outputs := n.outputs.insert t outs }

theorem withOutputs_getD (hd : n.outputs.Distinct) (outs : List TupleId) (k : TupleId) :
    (n.withOutputs t outs).outputs.getD k [] = if k = t then outs else n.outputs.getD k [] := by
  unfold withOutputs Table.getD
  cases outs with
  | nil => by_cases hkt : k = t <;> simp [hd.get?_erase, hkt, Ne.symm]
  | cons out outs => by_cases hkt : k = t <;> simp [Table.get?_insert, hkt, Ne.symm]

theorem withOutputs_distinct (hd : n.outputs.Distinct) (outs : List TupleId) :
    (n.withOutputs t outs).outputs.Distinct := by
  unfold withOutputs
  split
  · exact hd.erase t
  · exact hd.insert t outs

theorem withOutputs_ids (outs : List TupleId) :
    (n.withOutputs t outs).outputIds.Perm (outs ++ n.otherIds t) := by
  unfold withOutputs outputIds otherIds
  cases outs with
  | nil => simp
  | cons out outs => simpa using (n.outputs.values_insert t (out :: outs)).flatten

theorem onEvent_ensures {e : Event} (hb : n.Books h s.arena.row)
    (hc : s.Clear n.outputIds (h.inputs .left t))
    (hW : ∀ rows, n.images (s.arena.row t) = .ok rows → ∀ row ∈ rows, W row) :
    (n.onEvent e t).Ensures s (n.Heard W s (h.hear .left e t))
      fun f => e ≠ .retract ∧ n.images (s.arena.row t) = .error f := by
  have hperm := n.outputIds_perm t
  have hc' : s.Clear (n.outputs.getD t [] ++ n.otherIds t) (h.inputs .left t) :=
    hc.work (W := W) (Staging.Work.refl.perm hperm)
  have hanswer : ((do
      let rows ← Stage.ofExcept (n.images (← Stage.rowOf t))
      let outs ← refit (n.outputs.getD t []) rows
      if outs.isEmpty then return { n with outputs := n.outputs.erase t }
      else return { n with outputs := n.outputs.insert t outs } : Stage V (FlattenNode V))).Ensures
        s (n.Heard W s (h.hear .left .insert t)) fun f => n.images (s.arena.row t) = .error f := by
    refine .of_bind (.of_rowOf (.of_bind (.of_except (fun rows hrows => ?_) fun f hf => hf)))
    refine .of_bind ((refit_ensures _ rows hc' (hW rows hrows)).mono (fun outs s' hs' => ?_)
      fun f hf => hf)
    obtain ⟨w, hmap, hrest⟩ := hs'
    have hheard : n.Heard W s (h.hear .left .insert t) (n.withOutputs t outs) s' := by
      have hw := (Staging.Work.refl.perm hperm).trans (w.perm (withOutputs_ids outs).symm)
      have hexpand : (n.withOutputs t outs).expand = n.expand := by
        unfold withOutputs
        split <;> rfl
      have himages : (n.withOutputs t outs).images = n.images := by
        unfold images
        rw [hexpand]
      refine ⟨hw, ⟨withOutputs_distinct hb.distinct outs, ?_⟩, hexpand⟩
      rw [himages]
      refine hb.images.answer t ?_ ?_ ?_ ?_ ?_ ?_
      · intro k hkt
        rw [withOutputs_getD hb.distinct, if_neg hkt]
      · exact fun k hkt x hx => hrest x (mem_otherIds hb.distinct hkt hx)
      · exact fun k hk => hc'.row w (Hearing.inputs_of_fresh hk)
      · exact fun l => Or.imp (fun hl => ⟨rfl, hl⟩) id
      · exact fun l => Or.imp (fun hl => hl.2) id
      · rw [withOutputs_getD hb.distinct, if_pos rfl, hmap, id_eq,
          hc'.row w (h.inputs_self .left t), hrows]
    unfold withOutputs at hheard
    split <;> rename_i hempty <;> simp only [hempty] at hheard <;> exact .of_pure hheard
  cases e with
  | insert => exact hanswer.mono (fun _ _ => id) fun _ hf => ⟨nofun, hf⟩
  | update => exact hanswer.mono (fun _ _ => id) fun _ hf => ⟨nofun, hf⟩
  | retract =>
      refine .of_bind ((Stage.retractAll_ensures (W := W) _ hc').mono (fun _ s' hs' => .of_pure ?_)
        fun f hf => hf)
      obtain ⟨w, hrows⟩ := hs'
      refine ⟨(Staging.Work.refl.perm hperm).trans w, ⟨hb.distinct.erase t,
        hb.images.forget t ?_ (fun _ _ x _ => hrows x) (fun _ _ => hrows _) ?_ ?_ ?_⟩, rfl⟩
      · intro k hkt
        simp [Table.getD, hb.distinct.get?_erase, Ne.symm hkt]
      · simp [Table.getD, hb.distinct.get?_erase]
      · exact fun l hl hlt => ⟨hl, fun hl' => hlt hl'.2⟩
      · exact fun l hl => ⟨fun hlt => hl.2 ⟨rfl, hlt⟩, hl.1⟩

end FlattenNode

namespace ConcatNode

def Books (n : ConcatNode) (h : Hearing) (ρ : TupleId → Row V) : Prop :=
  SingleImages n.outputs (·.2) (fun k => h.known k.1 k.2) (fun k => h.fresh k.1 k.2)
    (fun row => .ok [row]) ρ

def Heard (W : Row V → Prop) (n : ConcatNode) (s : Staging V) (h : Hearing) (n' : ConcatNode)
    (s' : Staging V) : Prop :=
  Staging.Work W s n.outputs.values s' n'.outputs.values ∧ n'.Books h s'.arena.row

variable {n : ConcatNode} {side : Side}

theorem known_hear {k : Side × TupleId} (hk : k = (side, t) ∨ h.known k.1 k.2) :
    (h.hear side .insert t).known k.1 k.2 :=
  hk.imp (fun hk => ⟨congrArg Prod.fst hk, congrArg Prod.snd hk⟩) id

theorem fresh_hear {k : Side × TupleId} (hk : (h.hear side .insert t).fresh k.1 k.2) :
    k = (side, t) ∨ h.fresh k.1 k.2 :=
  hk.imp (fun hk => Prod.ext hk.1 hk.2) id

theorem add_ensures {R : Fault → Prop} (hb : n.Books h s.arena.row)
    (hc : s.Clear n.outputs.values (h.inputs side t)) (hk : n.outputs.get? (side, t) = none)
    (hW : W (s.arena.row t)) :
    (n.add side t).Ensures s (n.Heard W s (h.hear side .insert t)) R := by
  refine .of_bind (.of_rowOf (.of_bind (.of_insert (.of_pure ⟨Table.work_insert hk hW, ?_⟩))))
  exact hb.insert (k := (side, t)) hc (fun k hk => Hearing.inputs_of_fresh hk)
    (h.inputs_self side t) rfl (fun _ => known_hear) fun _ => fresh_hear

theorem onEvent_ensures {e : Event} {R : Fault → Prop} (hb : n.Books h s.arena.row)
    (he : h.Expects side e t) (hc : s.Clear n.outputs.values (h.inputs side t))
    (hW : W (s.arena.row t)) :
    (n.onEvent side e t).Ensures s (n.Heard W s (h.hear side e t)) R := by
  cases e with
  | insert => exact add_ensures hb hc (hb.get?_eq_none (k := (side, t)) he) hW
  | update =>
      unfold onEvent
      cases hk : n.outputs.get? (side, t) with
      | some out =>
          have ha := hc.tended.active out (Table.mem_values_of_get? hk)
          refine .of_bind (.of_rowOf (.of_bind (.of_update ha (.of_pure
            ⟨Table.work_update hk hW, ?_⟩))))
          exact hb.update (k := (side, t)) hc (fun k hk => Hearing.inputs_of_fresh hk)
            (h.inputs_self side t) hk rfl (fun _ => known_hear) fun _ => fresh_hear
      | none => exact add_ensures hb hc hk hW
  | retract =>
      have hknown' : ∀ k : Side × TupleId, h.known k.1 k.2 → k ≠ (side, t) →
          (h.hear side .retract t).known k.1 k.2 :=
        fun k hk hne => ⟨hk, fun hk' => hne (Prod.ext hk'.1 hk'.2)⟩
      have hfresh' : ∀ k : Side × TupleId, (h.hear side .retract t).fresh k.1 k.2 →
          k ≠ (side, t) ∧ h.fresh k.1 k.2 :=
        fun k hk => ⟨fun hkt => hk.2 ⟨congrArg Prod.fst hkt, congrArg Prod.snd hkt⟩, hk.1⟩
      unfold onEvent
      cases hk : n.outputs.get? (side, t) with
      | some out =>
          have ha := hc.tended.active out (Table.mem_values_of_get? hk)
          refine .of_bind (.of_retract ha (.of_pure ⟨Table.work_retract hk, ?_⟩))
          exact hb.forget hc hk hknown' hfresh'
      | none => exact .of_pure ⟨.refl, hb.forget_none hk hknown' hfresh'⟩

end ConcatNode

end ConstraintScoring
