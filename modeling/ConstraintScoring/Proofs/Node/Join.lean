import ConstraintScoring.Node.Join
import ConstraintScoring.Proofs.Node.Hearing
import ConstraintScoring.Proofs.Node.Links
import ConstraintScoring.Proofs.Table.Nested

/-!
# Joins

Two inputs belong together if the node knows them with equal keys. An output is kept for a pair that
belongs together only, and the pair is in line if it has an output exactly when the conditions
accept its rows, and that output shows them. A node brings the pairs of an input in line whenever it
hears of it.
-/

namespace ConstraintScoring

variable {V : Type}

/-- What stops a join is one of its own functions. -/
def JoinIndexer.Raises (j : JoinIndexer V) (f : Fault) : Prop :=
  (∃ side row, j.key side row = .error f) ∨ ∃ l r, j.accepts l r = .error f

variable [Cell V]

/-- The row of a tuple has no key, or the conditions fail on it and the row of a tuple that came
with an equal key on the other side. -/
def JoinIndexer.FailsOn (j : JoinIndexer V) (others : TupleIndex V) (side : Side)
    (ρ : TupleId → Row V) (t : TupleId) (f : Fault) : Prop :=
  j.key side (ρ t) = .error f ∨ ∃ k, j.key side (ρ t) = .ok k ∧ ∃ o ∈ others.withKey k,
    j.accepts (ρ (JoinNode.oriented side t o).1) (ρ (JoinNode.oriented side t o).2) = .error f

theorem JoinIndexer.FailsOn.raises {j : JoinIndexer V} {others : TupleIndex V} {side : Side}
    {ρ : TupleId → Row V} {t : TupleId} {f : Fault} (h : j.FailsOn others side ρ t f) :
    j.Raises f := by
  rcases h with hkey | ⟨k, -, o, -, haccepts⟩
  · exact Or.inl ⟨side, ρ t, hkey⟩
  · exact Or.inr ⟨_, _, haccepts⟩

theorem JoinIndexer.FailsOn.frame {j : JoinIndexer V} {others : TupleIndex V} {side : Side}
    {ρ ρ' : TupleId → Row V} {t : TupleId} {f : Fault} (h : j.FailsOn others side ρ t f)
    (ht : ρ t = ρ' t) (hothers : ∀ k, ∀ o ∈ others.withKey k, ρ o = ρ' o) :
    j.FailsOn others side ρ' t f := by
  unfold FailsOn at h ⊢
  rw [ht] at h
  refine h.imp id fun ⟨k, hk, o, ho, haccepts⟩ => ⟨k, hk, o, ho, ?_⟩
  cases side <;> simpa only [JoinNode.oriented, ht, hothers k o ho] using haccepts

section Indexes

variable {h : Hearing} {ix ix' : Side → TupleIndex V} {side σ : Side} {t x : TupleId} {k : Key V}

/-- Of the indexes of both sides only that of one side takes in a tuple that the node hears of. -/
theorem Hearing.holds_insert [Std.TransOrd V] (hholds : ∀ σ, (ix σ).Holds (h.known σ))
    (ht : ¬h.known side t) (hself : ix' side = (ix side).insert t k)
    (hother : ∀ σ, σ ≠ side → ix' σ = ix σ) (σ : Side) :
    (ix' σ).Holds ((h.hear side .insert t).known σ) := by
  by_cases hσ : σ = side
  · subst hσ
    rw [hself]
    exact ((hholds σ).insert ht).congr fun x => by simp [Hearing.hear]
  · rw [hother σ hσ]
    exact (hholds σ).congr fun x => by simp [Hearing.hear, hσ]

theorem Hearing.holds_remove [Std.TransOrd V] (hholds : ∀ σ, (ix σ).Holds (h.known σ))
    (hself : ix' side = (ix side).remove t) (hother : ∀ σ, σ ≠ side → ix' σ = ix σ) (σ : Side) :
    (ix' σ).Holds ((h.hear side .retract t).known σ) := by
  by_cases hσ : σ = side
  · subst hσ
    rw [hself]
    exact ((hholds σ).remove t).congr fun x => by simp [Hearing.hear]
  · rw [hother σ hσ]
    exact (hholds σ).congr fun x => by simp [Hearing.hear, hσ]

theorem Hearing.get?_insert (hself : ix' side = (ix side).insert t k)
    (hother : ∀ σ, σ ≠ side → ix' σ = ix σ) (hne : ¬(σ = side ∧ x = t)) :
    (ix' σ).keys.get? x = (ix σ).keys.get? x := by
  by_cases hσ : σ = side
  · subst hσ
    rw [hself, TupleIndex.Holds.keys_insert, if_neg fun htx => hne ⟨rfl, htx.symm⟩]
  · rw [hother σ hσ]

theorem Hearing.get?_remove (hholds : ∀ σ, (ix σ).Holds (h.known σ))
    (hself : ix' side = (ix side).remove t) (hother : ∀ σ, σ ≠ side → ix' σ = ix σ)
    (hne : ¬(σ = side ∧ x = t)) : (ix' σ).keys.get? x = (ix σ).keys.get? x := by
  by_cases hσ : σ = side
  · subst hσ
    rw [hself, (hholds σ).keys_remove, if_neg fun htx => hne ⟨rfl, htx.symm⟩]
  · rw [hother σ hσ]

end Indexes

namespace JoinNode

def Belong (n : JoinNode V) (l r : TupleId) : Prop := n.left.Meet n.right l r

structure Paired (n : JoinNode V) : Prop where
  outputs : n.byLeft.AllDistinct
  links : Links n.byRight
  mem_iff : ∀ l r, l ∈ n.byRight.getD r [] ↔ ∃ out, n.outputOf l r = some out
  belong : ∀ l r out, n.outputOf l r = some out → n.Belong l r

/-- The outputs of the pairs that satisfy `P` are what they should be. -/
def InLine (n : JoinNode V) (ρ : TupleId → Row V) (P : TupleId → TupleId → Prop) : Prop :=
  ∀ l r, P l r → ∃ passes, n.indexer.accepts (ρ l) (ρ r) = .ok passes ∧
    (passes = true ↔ ∃ out, n.outputOf l r = some out) ∧
    ∀ out, n.outputOf l r = some out → ρ out = ρ l ++ ρ r

structure Books (n : JoinNode V) (h : Hearing) (ρ : TupleId → Row V) : Prop where
  holds : ∀ side, (n.index side).Holds (h.known side)
  keys : ∀ side t, h.fresh side t → ∃ k k', (n.index side).keys.get? t = some k ∧
    n.indexer.key side (ρ t) = .ok k' ∧ (k == k') = true
  paired : n.Paired
  inLine : n.InLine ρ fun l r => h.fresh .left l ∧ h.fresh .right r ∧ n.Belong l r

theorem books_new (indexer : JoinIndexer V) {h : Hearing} {ρ : TupleId → Row V}
    (hknown : ∀ σ t, ¬h.known σ t) :
    Books ⟨indexer, .empty, .empty, .empty, .empty⟩ h ρ := by
  have hfresh : ∀ σ t, ¬h.fresh σ t := fun σ t ht => hknown σ t (h.known_of_fresh σ t ht)
  refine ⟨fun side => ?_, fun side t ht => absurd ht (hfresh side t),
    ⟨Table.allDistinct_empty, links_empty, fun l r => ?_, fun l r out ho => ?_⟩,
    fun l r hlr => absurd hlr.1 (hfresh .left l)⟩
  · cases side with
    | left => exact TupleIndex.holds_empty.congr fun t => iff_of_false id (hknown .left t)
    | right => exact TupleIndex.holds_empty.congr fun t => iff_of_false id (hknown .right t)
  · simp [outputOf, Table.getD]
  · simp [outputOf] at ho

def outputIds (n : JoinNode V) : List TupleId := n.byLeft.leaves

def Heard (W : Row V → Prop) (n : JoinNode V) (s : Staging V) (h : Hearing) (n' : JoinNode V)
    (s' : Staging V) : Prop :=
  Staging.Work W s n.outputIds s' n'.outputIds ∧ n'.Books h s'.arena.row ∧ n'.indexer = n.indexer

omit [Cell V] in
theorem InLine.mono {n : JoinNode V} {ρ : TupleId → Row V} {P P' : TupleId → TupleId → Prop}
    (h : n.InLine ρ P) (hP : ∀ l r, P' l r → P l r) : n.InLine ρ P' :=
  fun l r hlr => h l r (hP l r hlr)

theorem Books.frame {n : JoinNode V} {h h' : Hearing} {ρ ρ' : TupleId → Row V} (hb : n.Books h ρ)
    (hknown : ∀ side t, h.known side t ↔ h'.known side t)
    (hfresh : ∀ side t, h'.fresh side t → h.fresh side t ∧ ρ' t = ρ t)
    (houts : ∀ x ∈ n.outputIds, ρ' x = ρ x) : n.Books h' ρ' := by
  refine ⟨fun side => (hb.holds side).congr (hknown side), fun side t ht => ?_, hb.paired, ?_⟩
  · obtain ⟨ht, hrow⟩ := hfresh side t ht
    rw [hrow]
    exact hb.keys side t ht
  · rintro l r ⟨hl, hr, hlr⟩
    obtain ⟨hl, hrowl⟩ := hfresh .left l hl
    obtain ⟨hr, hrowr⟩ := hfresh .right r hr
    obtain ⟨passes, hpass, hiff, hrow⟩ := hb.inLine l r ⟨hl, hr, hlr⟩
    refine ⟨passes, by rw [hrowl, hrowr, hpass], hiff, fun out hout => ?_⟩
    rw [hrowl, hrowr, houts out (Table.mem_leaves_of_at? hout), hrow out hout]

section Pair

variable {W : Row V → Prop} {n : JoinNode V} {s : Staging V} {l r out : TupleId}
  {I : TupleId → Prop} {P : TupleId → TupleId → Prop}

/-- The node that results has the same indices and pairs in order. -/
structure Repaired (n n' : JoinNode V) : Prop where
  indexer : n'.indexer = n.indexer
  left : n'.left = n.left
  right : n'.right = n.right
  paired : n'.Paired

theorem Repaired.belong {n n' : JoinNode V} (h : Repaired n n') {l r : TupleId} :
    n'.Belong l r ↔ n.Belong l r := by
  unfold Belong
  rw [h.left, h.right]

theorem repaired_addPair (hp : n.Paired) (hlr : n.Belong l r) :
    Repaired n (n.addPair l r out) := by
  refine ⟨rfl, rfl, rfl, ⟨hp.outputs.putAt l r out, hp.links.link l r, fun l' r' => ?_,
    fun l' r' out' hout => ?_⟩⟩
  · change l' ∈ (n.byRight.link l r).getD r' [] ↔ ∃ out', (n.byLeft.putAt l r out).at? l' r' = _
    rw [Table.mem_link, hp.mem_iff, Table.at?_putAt]
    by_cases h : l' = l ∧ r' = r
    · simp [h]
    · have h' : ¬(l = l' ∧ r = r') := fun h' => h ⟨h'.1.symm, h'.2.symm⟩
      simp [h, h', outputOf, Table.at?]
  · change (n.byLeft.putAt l r out).at? l' r' = some out' at hout
    change n.Belong l' r'
    rw [Table.at?_putAt] at hout
    split at hout
    · rename_i h
      simp only [beq_iff_eq] at h
      exact h.1 ▸ h.2 ▸ hlr
    · exact hp.belong l' r' out' hout

theorem repaired_dropPair (hp : n.Paired) : Repaired n (n.dropPair l r) := by
  refine ⟨rfl, rfl, rfl, ⟨hp.outputs.dropAt l r, hp.links.unlink l r, fun l' r' => ?_,
    fun l' r' out' hout => ?_⟩⟩
  · change l' ∈ (n.byRight.unlink l r).getD r' [] ↔ ∃ out', (n.byLeft.dropAt l r).at? l' r' = _
    rw [hp.links.mem_unlink, hp.mem_iff, hp.outputs.at?_dropAt]
    by_cases h : l' = l ∧ r' = r
    · simp [h]
    · have h' : ¬(l = l' ∧ r = r') := fun h' => h ⟨h'.1.symm, h'.2.symm⟩
      simp [h, h', outputOf, Table.at?]
  · change (n.byLeft.dropAt l r).at? l' r' = some out' at hout
    rw [hp.outputs.at?_dropAt] at hout
    split at hout
    · cases hout
    · exact hp.belong l' r' out' hout

omit [Cell V] in
/-- One pair is brought in line, and the pairs that are in line stay so. -/
theorem inLine_step {n' : JoinNode V} {ρ ρ' : TupleId → Row V} (passes : Bool)
    (hin : n.InLine ρ P) (hindexer : n'.indexer = n.indexer)
    (hother : ∀ l' r', ¬(l' = l ∧ r' = r) → n'.outputOf l' r' = n.outputOf l' r')
    (hrows : ∀ l' r', ¬(l' = l ∧ r' = r) → ∀ x, n.outputOf l' r' = some x → ρ' x = ρ x)
    (hinputs : ∀ l' r', P l' r' → ρ' l' = ρ l' ∧ ρ' r' = ρ r')
    (hpass : n.indexer.accepts (ρ' l) (ρ' r) = .ok passes)
    (hiff : passes = true ↔ ∃ x, n'.outputOf l r = some x)
    (hnew : ∀ x, n'.outputOf l r = some x → ρ' x = ρ' l ++ ρ' r) :
    n'.InLine ρ' fun l' r' => l' = l ∧ r' = r ∨ P l' r' := by
  intro l' r' hlr
  by_cases h : l' = l ∧ r' = r
  · obtain ⟨rfl, rfl⟩ := h
    exact ⟨passes, by rw [hindexer, hpass], hiff, hnew⟩
  · have hP := hlr.resolve_left h
    obtain ⟨hl, hr⟩ := hinputs l' r' hP
    obtain ⟨passes', hpass', hiff', hrow⟩ := hin l' r' hP
    rw [hother l' r' h, hindexer, hl, hr]
    refine ⟨passes', hpass', hiff', fun x hx => ?_⟩
    rw [hrows l' r' h x hx, hrow x hx]

omit [Cell V] in
theorem outputOf_addPair (l' r' : TupleId) : (n.addPair l r out).outputOf l' r' =
    if l' = l ∧ r' = r then some out else n.outputOf l' r' := by
  change (n.byLeft.putAt l r out).at? l' r' = if _ then _ else n.byLeft.at? l' r'
  rw [Table.at?_putAt]
  simp only [beq_iff_eq, @eq_comm _ l', @eq_comm _ r']

theorem outputOf_dropPair (hp : n.Paired) (l' r' : TupleId) : (n.dropPair l r).outputOf l' r' =
    if l' = l ∧ r' = r then none else n.outputOf l' r' := by
  change (n.byLeft.dropAt l r).at? l' r' = if _ then _ else n.byLeft.at? l' r'
  rw [hp.outputs.at?_dropAt]
  simp only [beq_iff_eq, @eq_comm _ l', @eq_comm _ r']

/-- After one or more pairs were looked at again. -/
def Refreshed (W : Row V → Prop) (n : JoinNode V) (s : Staging V) (P : TupleId → TupleId → Prop)
    (n' : JoinNode V) (s' : Staging V) : Prop :=
  Staging.Work W s n.outputIds s' n'.outputIds ∧ Repaired n n' ∧ n'.InLine s'.arena.row P

/-- A pair that still passes keeps its output, which shows the rows of today. -/
theorem refreshed_updated (hp : n.Paired) (hc : s.Clear n.outputIds I) (hl : I l) (hr : I r)
    (hin : n.InLine s.arena.row P) (hP : ∀ l' r', P l' r' → I l' ∧ I r')
    (hW : W (s.arena.row l ++ s.arena.row r)) (hout : n.outputOf l r = some out)
    (hpass : n.indexer.accepts (s.arena.row l) (s.arena.row r) = .ok true) :
    n.Refreshed W s (fun l' r' => l' = l ∧ r' = r ∨ P l' r') n
      (s.updated out (s.arena.row l ++ s.arena.row r)) := by
  have hmem : out ∈ n.outputIds := Table.mem_leaves_of_at? hout
  have hrow := Staging.row_updated (r := s.arena.row l ++ s.arena.row r)
    (hc.tended.active out hmem) (hc.tended.occupied hmem)
  have hinput : ∀ t, I t → (s.updated out _).arena.row t = s.arena.row t := fun t ht => by
    rw [hrow, if_neg fun (hto : t = out) => hc.apart t ht (hto ▸ hmem)]
  refine ⟨.update .refl hmem hW, ⟨rfl, rfl, rfl, hp⟩,
    inLine_step true hin rfl (fun _ _ _ => rfl) ?_ ?_ ?_ (by simp [hout]) ?_⟩
  · intro l' r' hne x hx
    rw [hrow, if_neg]
    intro hxo
    exact hne (hp.outputs.at?_inj hc.tended.nodup (hxo ▸ hx) hout)
  · exact fun l' r' hP' => ⟨hinput l' (hP l' r' hP').1, hinput r' (hP l' r' hP').2⟩
  · rw [hinput l hl, hinput r hr, hpass]
  · intro x hx
    obtain rfl := Option.some.inj (hout.symm.trans hx)
    rw [hinput l hl, hinput r hr, hrow, if_pos rfl]

/-- The output of a pair that no longer passes is taken back. -/
theorem refreshed_retracted (hp : n.Paired) (hc : s.Clear n.outputIds I)
    (hin : n.InLine s.arena.row P) (hout : n.outputOf l r = some out)
    (hpass : n.indexer.accepts (s.arena.row l) (s.arena.row r) = .ok false) :
    n.Refreshed W s (fun l' r' => l' = l ∧ r' = r ∨ P l' r') (n.dropPair l r)
      (s.retracted out) := by
  have hmem : out ∈ n.outputIds := Table.mem_leaves_of_at? hout
  have hrow := Staging.row_retracted (hc.tended.active out hmem)
  have hgone : (n.dropPair l r).outputOf l r = none := by
    rw [outputOf_dropPair hp, if_pos ⟨rfl, rfl⟩]
  have hids : (n.outputIds.erase out).Perm (n.dropPair l r).outputIds := by
    have hperm := (Table.leaves_dropAt hout).erase out
    rwa [List.erase_cons_head] at hperm
  refine ⟨(Staging.Work.refl.retract hmem).perm hids, repaired_dropPair hp,
    inLine_step false hin rfl ?_ (fun _ _ _ x _ => hrow x) (fun _ _ _ => ⟨hrow _, hrow _⟩) ?_
      (by simp [hgone]) (by simp [hgone])⟩
  · intro l' r' hne
    rw [outputOf_dropPair hp, if_neg hne]
  · rw [hrow, hrow, hpass]

/-- A pair that passes now gets an output. -/
theorem refreshed_inserted (hp : n.Paired) (hc : s.Clear n.outputIds I) (hl : I l) (hr : I r)
    (hlr : n.Belong l r) (hin : n.InLine s.arena.row P) (hP : ∀ l' r', P l' r' → I l' ∧ I r')
    (hW : W (s.arena.row l ++ s.arena.row r)) (hout : n.outputOf l r = none)
    (hpass : n.indexer.accepts (s.arena.row l) (s.arena.row r) = .ok true) :
    n.Refreshed W s (fun l' r' => l' = l ∧ r' = r ∨ P l' r') (n.addPair l r s.arena.next)
      (s.inserted (s.arena.row l ++ s.arena.row r)) := by
  have hrow := Staging.row_inserted (r := s.arena.row l ++ s.arena.row r) hc.tended.valid
  have hinput : ∀ t, I t →
      (s.inserted (s.arena.row l ++ s.arena.row r)).arena.row t = s.arena.row t :=
    fun t ht => hc.row_inserted ht
  have hnew : (n.addPair l r s.arena.next).outputOf l r = some s.arena.next := by
    rw [outputOf_addPair, if_pos ⟨rfl, rfl⟩]
  refine ⟨(Staging.Work.refl.insert hW).perm (Table.leaves_putAt hout).symm,
    repaired_addPair hp hlr, inLine_step true hin rfl ?_ ?_ ?_ ?_ (by simp [hnew]) ?_⟩
  · intro l' r' hne
    rw [outputOf_addPair, if_neg hne]
  · intro l' r' _ x hx
    have hx := Table.mem_leaves_of_at? hx
    rw [hrow, if_neg fun (hxn : x = s.arena.next) => hc.next_not_mem (hxn ▸ hx)]
  · exact fun l' r' hP' => ⟨hinput l' (hP l' r' hP').1, hinput r' (hP l' r' hP').2⟩
  · rw [hinput l hl, hinput r hr, hpass]
  · intro x hx
    obtain rfl := Option.some.inj (hnew.symm.trans hx)
    rw [hinput l hl, hinput r hr, hrow, if_pos rfl]

theorem refreshPair_ensures (hp : n.Paired) (hc : s.Clear n.outputIds I) (hl : I l) (hr : I r)
    (hlr : n.Belong l r) (hin : n.InLine s.arena.row P) (hP : ∀ l' r', P l' r' → I l' ∧ I r')
    (hW : W (s.arena.row l ++ s.arena.row r)) :
    (n.refreshPair l r).Ensures s (n.Refreshed W s fun l' r' => l' = l ∧ r' = r ∨ P l' r')
      fun f => n.indexer.accepts (s.arena.row l) (s.arena.row r) = .error f := by
  unfold refreshPair
  refine .of_bind (.of_rowOf (.of_bind (.of_rowOf (.of_bind (.of_except (fun passes hpass => ?_)
    fun f hf => hf)))))
  cases hout : n.outputOf l r with
  | some out =>
      have ha := hc.tended.active out (Table.mem_leaves_of_at? hout)
      cases passes with
      | true =>
          exact .of_bind (.of_update ha (.of_pure
            (refreshed_updated hp hc hl hr hin hP hW hout hpass)))
      | false =>
          exact .of_bind (.of_retract ha (.of_pure (refreshed_retracted hp hc hin hout hpass)))
  | none =>
      cases passes with
      | true =>
          exact .of_bind (.of_insert (.of_pure
            (refreshed_inserted hp hc hl hr hlr hin hP hW hout hpass)))
      | false =>
          refine .of_pure ⟨.refl, ⟨rfl, rfl, rfl, hp⟩, ?_⟩
          exact inLine_step false hin rfl (fun _ _ _ => rfl) (fun _ _ _ _ _ => rfl)
            (fun _ _ _ => ⟨rfl, rfl⟩) hpass (by simp [hout]) (by simp [hout])

end Pair

section Leave

variable {W : Row V → Prop} {s : Staging V} {I : TupleId → Prop} {R : Fault → Prop}

omit [Cell V] in
theorem retractRights_ensures (l : TupleId) (entries : List (TupleId × TupleId)) :
    ∀ {s : Staging V} {byRight : Table TupleId (List TupleId)} {rest : List TupleId},
      s.Clear (entries.map (·.2) ++ rest) I →
      (retractRights l byRight entries).Ensures s (fun byRight' s' =>
        Staging.Work W s (entries.map (·.2) ++ rest) s' rest ∧
          (∀ x, s'.arena.row x = s.arena.row x) ∧
          byRight' = (entries.map (·.1)).foldl (fun T r => T.unlink l r) byRight) R := by
  induction entries with
  | nil => exact fun _ => .of_pure ⟨.refl, fun _ => rfl, rfl⟩
  | cons e entries ih =>
      intro s byRight rest hc
      obtain ⟨r, out⟩ := e
      have ha := hc.tended.active out (by simp)
      have w : Staging.Work W s (((r, out) :: entries).map (·.2) ++ rest) (s.retracted out)
          (entries.map (·.2) ++ rest) := by
        have w := Staging.Work.refl (W := W) (s := s)
          (O := ((r, out) :: entries).map (·.2) ++ rest) |>.retract (t := out) (by simp)
        simpa using w
      refine .of_bind (.of_retract ha ((ih (hc.work w)).mono ?_ fun _ hf => hf))
      rintro byRight' s' ⟨w', hrows, hbyRight⟩
      exact ⟨w.trans w', fun x => (hrows x).trans (Staging.row_retracted ha x), hbyRight⟩

/-- What is taken out for one tuple, and then for some more, is taken out for all of them. -/
theorem taken_cons {l l' r r' : TupleId} {ls : List TupleId} {before next after : Option TupleId}
    (hnext : next = if r' = r ∧ l' = l then none else before)
    (hafter : after = if r' = r ∧ l' ∈ ls then none else next) :
    after = if r' = r ∧ l' ∈ l :: ls then none else before := by
  rw [hafter, hnext]
  by_cases hr : r' = r
  · by_cases hl : l' = l <;> by_cases hls : l' ∈ ls <;> simp [hr, hl, hls]
  · simp [hr]

omit [Cell V] in
theorem retractLefts_ensures (r : TupleId) (ls : List TupleId) :
    ∀ {s : Staging V} {byLeft : Table TupleId (Table TupleId TupleId)},
      byLeft.AllDistinct → s.Clear byLeft.leaves I →
      (retractLefts r byLeft ls).Ensures s (fun byLeft' s' =>
        Staging.Work W s byLeft.leaves s' byLeft'.leaves ∧
          (∀ x, s'.arena.row x = s.arena.row x) ∧ byLeft'.AllDistinct ∧
          ∀ l' r', byLeft'.at? l' r' = if r' = r ∧ l' ∈ ls then none else byLeft.at? l' r') R := by
  induction ls with
  | nil => exact fun hd _ => .of_pure ⟨.refl, fun _ => rfl, hd, fun l' r' => by simp⟩
  | cons l ls ih =>
      intro s byLeft hd hc
      unfold retractLefts
      cases hout : (byLeft.get? l).bind (·.get? r) with
      | none =>
          have hnone : byLeft.at? l r = none := hout
          refine (ih hd hc).mono ?_ fun _ hf => hf
          rintro byLeft' s' ⟨w, hrows, hd', hat⟩
          refine ⟨w, hrows, hd', fun l' r' => taken_cons ?_ (hat l' r')⟩
          split
          · rename_i hlr
            rw [hlr.1, hlr.2, hnone]
          · rfl
      | some out =>
          have hout : byLeft.at? l r = some out := hout
          have hmem := Table.mem_leaves_of_at? hout
          have ha := hc.tended.active out hmem
          have w : Staging.Work W s byLeft.leaves (s.retracted out) (byLeft.dropAt l r).leaves := by
            refine (Staging.Work.refl.retract hmem).perm ?_
            have hperm := (Table.leaves_dropAt hout).erase out
            rwa [List.erase_cons_head] at hperm
          refine .of_bind (.of_retract ha ((ih (hd.dropAt l r) (hc.work w)).mono ?_ fun _ hf => hf))
          rintro byLeft' s' ⟨w', hrows, hd', hat⟩
          refine ⟨w.trans w', fun x => (hrows x).trans (Staging.row_retracted ha x), hd',
            fun l' r' => taken_cons ?_ (hat l' r')⟩
          rw [hd.at?_dropAt]
          simp only [beq_iff_eq, and_comm, @eq_comm _ l', @eq_comm _ r']

/-- Whether a tuple of one side is part of a pair. -/
def Concerns (side : Side) (t l r : TupleId) : Prop :=
  match side with
  | .left => l = t
  | .right => r = t

instance (side : Side) (t l r : TupleId) : Decidable (Concerns side t l r) :=
  match side with
  | .left => inferInstanceAs (Decidable (l = t))
  | .right => inferInstanceAs (Decidable (r = t))

variable {n n' : JoinNode V} {h : Hearing} {ρ : TupleId → Row V} {side : Side} {t : TupleId}

/-- A node that forgets an input together with its pairs. -/
theorem books_leave (side : Side) (hb : n.Books h ρ) (hindexer : n'.indexer = n.indexer)
    (hself : n'.index side = (n.index side).remove t)
    (hother : ∀ σ, σ ≠ side → n'.index σ = n.index σ) (houtputs : n'.byLeft.AllDistinct)
    (hlinks : Links n'.byRight)
    (hout : ∀ l r, n'.outputOf l r = if Concerns side t l r then none else n.outputOf l r)
    (hmem : ∀ l r, l ∈ n'.byRight.getD r [] ↔ l ∈ n.byRight.getD r [] ∧ ¬Concerns side t l r)
    [Std.TransOrd V] : n'.Books (h.hear side .retract t) ρ := by
  have hkeys : ∀ σ x, ¬(σ = side ∧ x = t) →
      (n'.index σ).keys.get? x = (n.index σ).keys.get? x := fun σ x =>
    Hearing.get?_remove hb.holds hself hother
  have hbelong : ∀ l r, ¬Concerns side t l r → (n'.Belong l r ↔ n.Belong l r) := by
    intro l r hlr
    exact TupleIndex.meet_congr (hkeys .left l fun h => hlr (by cases h.1; exact h.2))
      (hkeys .right r fun h => hlr (by cases h.1; exact h.2))
  -- The tuple has no key any more, so it belongs to nothing.
  have hconcerns : ∀ l r, n'.Belong l r → ¬Concerns side t l r := by
    rintro l r ⟨k, k', hk, hk', -⟩ hc
    have hgone : (n'.index side).keys.get? t = none := by
      rw [hself, (hb.holds side).keys_remove, if_pos rfl]
    cases side with
    | left =>
        have hlt : l = t := hc
        simp [index, ← hlt, hk] at hgone
    | right =>
        have hrt : r = t := hc
        simp [index, ← hrt, hk'] at hgone
  refine ⟨Hearing.holds_remove hb.holds hself hother, fun σ x hx => ?_,
    ⟨houtputs, hlinks, fun l r => ?_, fun l r out hlr => ?_⟩, ?_⟩
  · rw [hkeys σ x hx.2, hindexer]
    exact hb.keys σ x hx.1
  · rw [hmem, hb.paired.mem_iff, hout]
    by_cases hlr : Concerns side t l r <;> simp [hlr]
  · rw [hout] at hlr
    split at hlr
    · cases hlr
    · rename_i hc
      exact (hbelong l r hc).mpr (hb.paired.belong l r out hlr)
  · rintro l r ⟨hl, hr, hlr⟩
    have hc := hconcerns l r hlr
    rw [hindexer, hout, if_neg hc]
    exact hb.inLine l r ⟨hl.1, hr.1, (hbelong l r hc).mp hlr⟩

/-- The node once a left tuple has left, whose pairs are found beside it. -/
theorem books_leave_left [Std.TransOrd V] (hb : n.Books h ρ) :
    Books { n with left := n.left.remove t, byLeft := n.byLeft.erase t, byRight :=
      ((n.byLeft.getD t .empty).entries.map (·.1)).foldl (fun T r => T.unlink t r) n.byRight }
      (h.hear .left .retract t) ρ := by
  have hp := hb.paired
  obtain ⟨hlinks, hmem⟩ := hp.links.unlinkAll t ((n.byLeft.getD t .empty).entries.map (·.1))
  refine books_leave .left (t := t) hb rfl rfl ?_ (hp.outputs.erase t) hlinks ?_ ?_
  · rintro (_ | _) hσ
    · exact absurd rfl hσ
    · rfl
  · intro l r
    change (n.byLeft.erase t).at? l r = _
    rw [hp.outputs.at?_erase]
    simp only [beq_iff_eq, Concerns, @eq_comm _ l]
    rfl
  · intro l r
    refine (hmem l r).trans (and_congr_right fun hl => not_congr ?_)
    refine ⟨And.left, fun (hlt : l = t) => ⟨hlt, ?_⟩⟩
    obtain ⟨out, hout⟩ := (hp.mem_iff l r).mp hl
    have hout : n.byLeft.at? l r = some out := hout
    rw [hlt, Table.at?_eq_getD] at hout
    obtain ⟨r', hr', hrr⟩ := Table.mem_of_get? hout
    exact List.mem_map.mpr ⟨_, hr', eq_of_beq hrr⟩

/-- The node once a right tuple has left, whose pairs are found beside the left ones. -/
theorem books_leave_right [Std.TransOrd V] {byLeft : Table TupleId (Table TupleId TupleId)}
    (hb : n.Books h ρ) (hd : byLeft.AllDistinct) (hat : ∀ l r, byLeft.at? l r =
      if r = t ∧ l ∈ n.byRight.getD t [] then none else n.byLeft.at? l r) :
    Books { n with right := n.right.remove t, byLeft, byRight := n.byRight.erase t }
      (h.hear .right .retract t) ρ := by
  have hp := hb.paired
  refine books_leave .right (t := t) hb rfl rfl ?_ hd (hp.links.erase t) ?_ ?_
  · rintro (_ | _) hσ
    · rfl
    · exact absurd rfl hσ
  · intro l r
    change byLeft.at? l r = _
    rw [hat]
    by_cases hr : r = t
    · subst hr
      rw [if_pos (show Concerns .right r l r from rfl)]
      by_cases hl : l ∈ n.byRight.getD r []
      · rw [if_pos ⟨rfl, hl⟩]
      · rw [if_neg fun hlr => hl hlr.2]
        by_contra hne
        obtain ⟨out, hout⟩ := Option.ne_none_iff_exists'.mp hne
        exact hl ((hp.mem_iff l r).mpr ⟨out, hout⟩)
    · rw [if_neg fun hlr => hr hlr.1, if_neg (show ¬Concerns .right t l r from hr)]
      rfl
  · intro l r
    change l ∈ (n.byRight.erase t).getD r [] ↔ _
    rw [hp.links.getD_erase]
    by_cases hr : t = r
    · simp [hr, Concerns]
    · simp [hr, Concerns, Ne.symm hr]

theorem retract_ensures [Std.TransOrd V] (hb : n.Books h s.arena.row) (hc : s.Clear n.outputIds I) :
    (n.retract side t).Ensures s (n.Heard W s (h.hear side .retract t)) R := by
  cases side with
  | left =>
      have hperm := n.byLeft.leaves_perm t
      have hc' : s.Clear ((n.byLeft.getD t .empty).values ++ (n.byLeft.erase t).leaves) I :=
        hc.work (W := W) (Staging.Work.refl.perm hperm)
      refine .of_bind ((retractRights_ensures (W := W) t _ hc').mono ?_ fun _ hf => hf)
      rintro byRight' s' ⟨w, hrows, rfl⟩
      refine .of_pure ⟨(Staging.Work.refl.perm hperm).trans w, ?_, rfl⟩
      rw [show s'.arena.row = s.arena.row from funext hrows]
      exact books_leave_left hb
  | right =>
      refine .of_bind ((retractLefts_ensures (W := W) t _ hb.paired.outputs hc).mono ?_
        fun _ hf => hf)
      rintro byLeft' s' ⟨w, hrows, hd, hat⟩
      refine .of_pure ⟨w, ?_, rfl⟩
      rw [show s'.arena.row = s.arena.row from funext hrows]
      exact books_leave_right hb hd hat

end Leave

section Enter

variable {W : Row V → Prop} {s : Staging V} {h : Hearing} {side : Side} {t : TupleId}

theorem Repaired.trans {n n' n'' : JoinNode V} (h : Repaired n n') (h' : Repaired n' n'') :
    Repaired n n'' :=
  ⟨h'.indexer.trans h.indexer, h'.left.trans h.left, h'.right.trans h.right, h'.paired⟩

theorem refreshAll_ensures {I : TupleId → Prop} (others : List TupleId) :
    ∀ {n : JoinNode V} {s : Staging V} {P : TupleId → TupleId → Prop}, n.Paired →
      s.Clear n.outputIds I → n.InLine s.arena.row P → (∀ l r, P l r → I l ∧ I r) →
      (∀ l r, (∃ o ∈ others, oriented side t o = (l, r)) →
        I l ∧ I r ∧ n.Belong l r ∧ W (s.arena.row l ++ s.arena.row r)) →
      (n.refreshAll side t others).Ensures s
        (n.Refreshed W s fun l r => (∃ o ∈ others, oriented side t o = (l, r)) ∨ P l r)
        fun f => ∃ o ∈ others, n.indexer.accepts (s.arena.row (oriented side t o).1)
          (s.arena.row (oriented side t o).2) = .error f := by
  induction others with
  | nil =>
      intro n s P hp hc hin hP _
      exact .of_pure ⟨.refl, ⟨rfl, rfl, rfl, hp⟩, hin.mono fun l r hlr => hlr.resolve_left (by simp)⟩
  | cons o others ih =>
      intro n s P hp hc hin hP hothers
      obtain ⟨hl, hr, hlr, hW⟩ := hothers (oriented side t o).1 (oriented side t o).2
        ⟨o, by simp, rfl⟩
      refine .of_bind ((refreshPair_ensures hp hc hl hr hlr hin hP hW).mono ?_ fun f hf =>
        ⟨o, List.mem_cons_self, hf⟩)
      rintro n₁ s₁ ⟨w₁, hrep₁, hin₁⟩
      have hnext := ih (n := n₁) (s := s₁) hrep₁.paired (hc.work w₁) hin₁ ?_ ?_
      · refine hnext.mono ?_ fun f ⟨o', ho', hf⟩ => ⟨o', List.mem_cons_of_mem o ho', ?_⟩
        swap
        · obtain ⟨hl', hr', -⟩ := hothers (oriented side t o').1 (oriented side t o').2
            ⟨o', List.mem_cons_of_mem o ho', rfl⟩
          rwa [hrep₁.indexer, hc.row w₁ hl', hc.row w₁ hr'] at hf
        rintro n₂ s₂ ⟨w₂, hrep₂, hin₂⟩
        refine ⟨w₁.trans w₂, hrep₁.trans hrep₂, hin₂.mono fun l r hlr => ?_⟩
        rcases hlr with ⟨o', ho', heq⟩ | hlr
        · rcases List.mem_cons.mp ho' with rfl | ho'
          · exact Or.inr (Or.inl (by rw [heq]; exact ⟨rfl, rfl⟩))
          · exact Or.inl ⟨o', ho', heq⟩
        · exact Or.inr (Or.inr hlr)
      · rintro l r (⟨rfl, rfl⟩ | hlr)
        · exact ⟨hl, hr⟩
        · exact hP l r hlr
      · rintro l r ⟨o', ho', heq⟩
        obtain ⟨hl', hr', hlr', hW'⟩ := hothers l r ⟨o', List.mem_cons_of_mem o ho', heq⟩
        exact ⟨hl', hr', hrep₁.belong.mpr hlr', by rwa [hc.row w₁ hl', hc.row w₁ hr']⟩

variable {n : JoinNode V}

/-- The candidates of an input are the tuples that belong together with it. -/
theorem oriented_candidate {known : Side → TupleId → Prop} {k : Key V} {l r : TupleId}
    [Std.TransOrd V] (hholds : ∀ σ, (n.index σ).Holds (known σ)) {k' : Key V}
    (hk : (n.index side).keys.get? t = some k') (hkk : (k' == k) = true) :
    (∃ o ∈ (n.opposite side).withKey k, oriented side t o = (l, r)) ↔
      Concerns side t l r ∧ n.Belong l r := by
  cases side with
  | left =>
      have hmeet := fun r => (hholds .right).meet_iff_mem_right (r := r) hk hkk
      constructor
      · rintro ⟨o, ho, heq⟩
        obtain ⟨rfl, rfl⟩ := Prod.mk.inj heq
        exact ⟨rfl, (hmeet o).mpr ho⟩
      · rintro ⟨rfl, hlr⟩
        exact ⟨r, (hmeet r).mp hlr, rfl⟩
  | right =>
      have hmeet := fun l => (hholds .left).meet_iff_mem_left (l := l) hk hkk
      constructor
      · rintro ⟨o, ho, heq⟩
        obtain ⟨rfl, rfl⟩ := Prod.mk.inj heq
        exact ⟨rfl, (hmeet o).mpr ho⟩
      · rintro ⟨rfl, hlr⟩
        exact ⟨l, (hmeet l).mp hlr, rfl⟩

/-- Bringing in line every pair of an input makes the node's books hold with the input fresh. -/
theorem refreshInput_ensures [Std.TransOrd V] {k k' : Key V} {P : TupleId → TupleId → Prop}
    (hholds : ∀ σ, (n.index σ).Holds ((h.hear side .insert t).known σ)) (hp : n.Paired)
    (hkeys : ∀ σ x, h.fresh σ x → ¬(σ = side ∧ x = t) → ∃ k k', (n.index σ).keys.get? x = some k ∧
      n.indexer.key σ (s.arena.row x) = .ok k' ∧ (k == k') = true)
    (hk : (n.index side).keys.get? t = some k') (hkk : (k' == k) = true)
    (hkey : n.indexer.key side (s.arena.row t) = .ok k)
    (hin : n.InLine s.arena.row P)
    (hP : ∀ l r, P l r → h.fresh .left l ∧ h.fresh .right r)
    (hall : ∀ l r, h.fresh .left l → h.fresh .right r → n.Belong l r → ¬Concerns side t l r → P l r)
    (hc : s.Clear n.outputIds (h.inputs side t))
    (hW : ∀ l r, h.Input side t .left l → h.Input side t .right r →
      W (s.arena.row l ++ s.arena.row r)) :
    (n.refreshAll side t ((n.opposite side).withKey k)).Ensures s
      (n.Heard W s (h.hear side .insert t))
      (n.indexer.FailsOn (n.opposite side) side s.arena.row t) := by
  have hinput : ∀ l r, n.Belong l r → h.Input side t .left l ∧ h.Input side t .right r := by
    exact fun l r hlr => ⟨(hholds .left).known_of_meet_left hlr,
      (hholds .right).known_of_meet_right hlr⟩
  have hcandidate := fun l r => oriented_candidate (l := l) (r := r) hholds hk hkk
  refine (refreshAll_ensures (W := W) _ hp hc hin ?_ ?_).mono ?_ fun f hf => Or.inr ⟨k, hkey, hf⟩
  · intro l r hlr
    obtain ⟨hl, hr⟩ := hP l r hlr
    exact ⟨⟨.left, Or.inr (h.known_of_fresh _ _ hl)⟩, ⟨.right, Or.inr (h.known_of_fresh _ _ hr)⟩⟩
  · intro l r hlr
    obtain ⟨-, hlr⟩ := (hcandidate l r).mp hlr
    obtain ⟨hl, hr⟩ := hinput l r hlr
    exact ⟨⟨.left, hl⟩, ⟨.right, hr⟩, hlr, hW l r hl hr⟩
  · rintro n' s' ⟨w, hrep, hin'⟩
    have hindex : ∀ σ, n'.index σ = n.index σ := by
      rintro (_ | _)
      · exact hrep.left
      · exact hrep.right
    refine ⟨w, ⟨fun σ => hindex σ ▸ hholds σ, fun σ x hx => ?_, hrep.paired, ?_⟩, hrep.indexer⟩
    · rw [hindex, hrep.indexer, hc.row w ⟨σ, hx.imp id (h.known_of_fresh σ x)⟩]
      by_cases hσx : σ = side ∧ x = t
      · obtain ⟨rfl, rfl⟩ := hσx
        exact ⟨k', k, hk, hkey, hkk⟩
      · exact hkeys σ x (hx.resolve_left hσx) hσx
    · refine hin'.mono fun l r hlr => ?_
      obtain ⟨hl, hr, hlr⟩ := hlr
      have hlr := hrep.belong.mp hlr
      by_cases hconcerns : Concerns side t l r
      · exact Or.inl ((hcandidate l r).mpr ⟨hconcerns, hlr⟩)
      · refine Or.inr (hall l r (hl.resolve_left fun hl => ?_) (hr.resolve_left fun hr => ?_) hlr
          hconcerns)
        · obtain ⟨rfl, rfl⟩ := hl
          exact hconcerns rfl
        · obtain ⟨rfl, rfl⟩ := hr
          exact hconcerns rfl

section Indexed

variable (n : JoinNode V) (side : Side) (t : TupleId) (k : Key V)

theorem index_indexed : (n.indexed side t k).index side = (n.index side).insert t k := by
  cases side <;> rfl

theorem index_indexed_of_ne {σ : Side} (hσ : σ ≠ side) :
    (n.indexed side t k).index σ = n.index σ := by
  cases σ <;> cases side <;> first | rfl | exact absurd rfl hσ

theorem opposite_indexed : (n.indexed side t k).opposite side = n.opposite side := by
  cases side <;> rfl

theorem indexer_indexed : (n.indexed side t k).indexer = n.indexer := by cases side <;> rfl

theorem byLeft_indexed : (n.indexed side t k).byLeft = n.byLeft := by cases side <;> rfl

theorem byRight_indexed : (n.indexed side t k).byRight = n.byRight := by cases side <;> rfl

theorem outputOf_indexed (l r : TupleId) : (n.indexed side t k).outputOf l r = n.outputOf l r := by
  unfold outputOf
  rw [byLeft_indexed]

theorem outputIds_indexed : (n.indexed side t k).outputIds = n.outputIds :=
  congrArg Table.leaves (n.byLeft_indexed side t k)

variable {n side t k}

theorem get?_indexed {σ : Side} {x : TupleId} (hne : ¬(σ = side ∧ x = t)) :
    ((n.indexed side t k).index σ).keys.get? x = (n.index σ).keys.get? x :=
  Hearing.get?_insert (index_indexed n side t k) (fun _ => index_indexed_of_ne n side t k) hne

theorem belong_indexed {l r : TupleId} (hlr : ¬Concerns side t l r) :
    (n.indexed side t k).Belong l r ↔ n.Belong l r :=
  TupleIndex.meet_congr (get?_indexed (σ := .left) fun h => hlr (by cases h.1; exact h.2))
    (get?_indexed (σ := .right) fun h => hlr (by cases h.1; exact h.2))

end Indexed

theorem insert_ensures [Std.TransOrd V] (hb : n.Books h s.arena.row) (ht : ¬h.known side t)
    (hc : s.Clear n.outputIds (h.inputs side t))
    (hW : ∀ l r, h.Input side t .left l → h.Input side t .right r →
      W (s.arena.row l ++ s.arena.row r)) :
    (n.insert side t).Ensures s (n.Heard W s (h.hear side .insert t))
      (n.indexer.FailsOn (n.opposite side) side s.arena.row t) := by
  refine .of_bind (.of_rowOf (.of_bind (.of_except (fun k hk => ?_) fun f hf => Or.inl hf)))
  have hnew : ∀ l r, n.Belong l r → ¬Concerns side t l r := by
    intro l r hmeet hlr
    cases side with
    | left => exact ht (hlr ▸ (hb.holds .left).known_of_meet_left hmeet)
    | right => exact ht (hlr ▸ (hb.holds .right).known_of_meet_right hmeet)
  have hids := n.outputIds_indexed side t k
  have hindexer := n.indexer_indexed side t k
  have hrefresh := refreshInput_ensures (n := n.indexed side t k) (h := h) (W := W)
    (s := s) (t := t) (k := k) (P := fun l r => h.fresh .left l ∧ h.fresh .right r ∧
      n.Belong l r) ?_ ?_ ?_ ?_ BEq.rfl (by rw [hindexer, hk]) ?_ ?_ ?_ (by rwa [hids]) hW
  · rw [opposite_indexed, hindexer] at hrefresh
    refine hrefresh.mono ?_ fun _ hf => hf
    rintro n' s' ⟨w, hb', hindexer'⟩
    exact ⟨hids ▸ w, hb', hindexer'.trans hindexer⟩
  · exact Hearing.holds_insert hb.holds ht (n.index_indexed side t k)
      fun _ => n.index_indexed_of_ne side t k
  · refine ⟨n.byLeft_indexed side t k ▸ hb.paired.outputs,
      n.byRight_indexed side t k ▸ hb.paired.links, fun l r => ?_, fun l r out hlr => ?_⟩
    · rw [byRight_indexed, hb.paired.mem_iff, outputOf_indexed]
    · rw [outputOf_indexed] at hlr
      have hlr := hb.paired.belong l r out hlr
      exact (belong_indexed (hnew l r hlr)).mpr hlr
  · intro σ x hx hne
    rw [get?_indexed hne, hindexer]
    exact hb.keys σ x hx
  · rw [index_indexed, TupleIndex.Holds.keys_insert, if_pos rfl]
  · intro l r hlr
    rw [outputOf_indexed, hindexer]
    exact hb.inLine l r hlr
  · exact fun l r hlr => ⟨hlr.1, hlr.2.1⟩
  · exact fun l r hl hr hlr hne => ⟨hl, hr, (belong_indexed hne).mp hlr⟩

/-- A tuple that leaves on its side does not touch the index of the other side. -/
theorem retract_opposite (n : JoinNode V) (side : Side) (t : TupleId) (s : Staging V) :
    (n.retract side t).Ensures s (fun n' _ => n'.opposite side = n.opposite side)
      fun _ => True := by
  cases side <;> exact .bind_any fun _ _ => .of_pure rfl

theorem update_ensures [Std.TransOrd V] (hb : n.Books h s.arena.row) (ht : h.known side t)
    (hc : s.Clear n.outputIds (h.inputs side t))
    (hW : ∀ l r, h.Input side t .left l → h.Input side t .right r →
      W (s.arena.row l ++ s.arena.row r)) :
    (n.update side t).Ensures s (n.Heard W s (h.hear side .update t))
      (n.indexer.FailsOn (n.opposite side) side s.arena.row t) := by
  refine .of_bind (.of_rowOf (.of_bind (.of_except (fun k hk => ?_) fun f hf => Or.inl hf)))
  have hkeep : ∀ σ x, (h.hear side .insert t).known σ x ↔ h.known σ x := fun σ x =>
    ⟨fun hx => hx.elim (fun hx => hx.1 ▸ hx.2 ▸ ht) id, Or.inr⟩
  split
  · rename_i hsame
    unfold TupleIndex.hasKey at hsame
    split at hsame
    · rename_i k' hk'
      exact refreshInput_ensures (h := h) (P := fun l r => h.fresh .left l ∧ h.fresh .right r ∧
        n.Belong l r) (fun σ => (hb.holds σ).congr fun x => (hkeep σ x).symm) hb.paired
        (fun σ x hx _ => hb.keys σ x hx) hk' hsame hk hb.inLine (fun l r hlr => ⟨hlr.1, hlr.2.1⟩)
        (fun l r hl hr hlr _ => ⟨hl, hr, hlr⟩) hc hW
    · cases hsame
  · refine .of_bind (((retract_ensures (W := W) hb hc).and (n.retract_opposite side t s)).mono ?_
      fun _ hf => hf.1)
    rintro n₁ s₁ ⟨⟨w₁, hb₁, hindexer₁⟩, hopposite⟩
    have hsub : ∀ σ x, (h.hear side .retract t).Input side t σ x → h.Input side t σ x :=
      fun σ x => Or.imp id And.left
    have hc₁ := hc.work w₁
    have hothers : ∀ k, ∀ o ∈ (n.opposite side).withKey k, h.inputs side t o := by
      intro k o ho
      cases side with
      | left => exact ⟨.right, Or.inr ((hb.holds .right).known_of_mem ho)⟩
      | right => exact ⟨.left, Or.inr ((hb.holds .left).known_of_mem ho)⟩
    rw [← hindexer₁, ← hopposite]
    refine (insert_ensures (W := W) hb₁ (fun hx => hx.2 ⟨rfl, rfl⟩)
      (hc₁.mono fun x ⟨σ, hx⟩ => ⟨σ, hsub σ x hx⟩) ?_).mono ?_ fun _ hf =>
        hf.frame (hc.row w₁ (h.inputs_self side t)) fun k o ho =>
          hc.row w₁ (hothers k o (hopposite ▸ ho))
    · intro l r hl hr
      rw [hc.row w₁ ⟨_, hsub _ l hl⟩, hc.row w₁ ⟨_, hsub _ r hr⟩]
      exact hW l r (hsub _ l hl) (hsub _ r hr)
    · rintro n₂ s₂ ⟨w₂, hb₂, hindexer₂⟩
      refine ⟨w₁.trans w₂, hb₂.frame (fun σ x => ?_) (fun σ x hx => ⟨?_, rfl⟩) fun _ _ => rfl,
        hindexer₂.trans hindexer₁⟩
      · change _ ∨ (h.known σ x ∧ ¬_) ↔ _ ∨ h.known σ x
        tauto
      · change _ ∨ (h.fresh σ x ∧ ¬_)
        have hx : (σ = side ∧ x = t) ∨ h.fresh σ x := hx
        tauto

theorem onEvent_ensures [Std.TransOrd V] {e : Event} (hb : n.Books h s.arena.row)
    (he : h.Expects side e t) (hc : s.Clear n.outputIds (h.inputs side t))
    (hW : ∀ l r, h.Input side t .left l → h.Input side t .right r →
      W (s.arena.row l ++ s.arena.row r)) :
    (n.onEvent side e t).Ensures s (n.Heard W s (h.hear side e t))
      fun f => e ≠ .retract ∧ n.indexer.FailsOn (n.opposite side) side s.arena.row t f := by
  cases e with
  | insert => exact (insert_ensures hb he hc hW).mono (fun _ _ => id) fun _ hf => ⟨nofun, hf⟩
  | update => exact (update_ensures hb he hc hW).mono (fun _ _ => id) fun _ hf => ⟨nofun, hf⟩
  | retract => exact retract_ensures hb hc

end Enter

end JoinNode

end ConstraintScoring
