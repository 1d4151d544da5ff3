import ConstraintScoring.Proofs.Node.Kind

/-!
# Nodes that keep no entry for nothing

The books of a node say what its tables answer. A tidy node has no entry besides: no bucket without
tuples, no expansion without items, and pairs only for tuples that are indexed. Whatever a node
hears of, it stays tidy.
-/

namespace ConstraintScoring

variable {V S α β γ : Type}

namespace Table

variable {κ : Type} [BEq κ]

/-- Every key of the first table is a key of the second. -/
def Within (T : Table κ α) (U : Table κ β) : Prop := ∀ k, (T.get? k).isSome → (U.get? k).isSome

theorem within_empty (U : Table κ β) : (empty : Table κ α).Within U :=
  fun k hk => absurd hk (by simp)

theorem Within.trans {T : Table κ α} {U : Table κ β} {W : Table κ γ} (h : T.Within U)
    (h' : U.Within W) : T.Within W := fun k hk => h' k (h k hk)

variable [EquivBEq κ] {T : Table κ α} {U : Table κ β} {k : κ}

theorem within_modify (T : Table κ α) (k : κ) (f : α → α) : (T.modify k f).Within T := by
  intro l hl
  rw [get?_modify] at hl
  split at hl
  · rwa [Option.isSome_map] at hl
  · exact hl

theorem within_insert (U : Table κ β) (k : κ) (b : β) : U.Within (U.insert k b) := by
  intro l hl
  rw [get?_insert]
  split
  · rfl
  · exact hl

theorem Within.insert (h : T.Within U) (hk : (U.get? k).isSome) (a : α) : (T.insert k a).Within U := by
  intro l hl
  rw [get?_insert] at hl
  split at hl
  · rename_i hkl
    rwa [← get?_congr U hkl]
  · exact h l hl

/-- A key taken out of both tables. -/
theorem Within.erase (h : T.Within U) (hT : T.Distinct) {U' : Table κ β}
    (hU : ∀ l, (k == l) = false → U'.get? l = U.get? l) : (T.erase k).Within U' := by
  intro l hl
  rw [hT.get?_erase] at hl
  split at hl
  · cases hl
  · rename_i hkl
    rw [hU l (by simpa using hkl)]
    exact h l hl

end Table

namespace Stage

/-- In whatever staging the work is begun, it comes to an end with nothing but such results. -/
def Yields (x : Stage V α) (P : α → Prop) : Prop := ∀ s a s', x.run.run s = (.ok a, s') → P a

variable {x : Stage V α} {f : α → Stage V β} {P P' : α → Prop} {Q : β → Prop}

theorem Yields.of_pure {a : α} (h : P a) : (pure a : Stage V α).Yields P := by
  intro s a' s' hrun
  obtain ⟨ha, -⟩ := Prod.mk.inj hrun
  rw [← Except.ok.inj ha]
  exact h

theorem Yields.of_throw (e : Fault) (P : α → Prop) : (throw e : Stage V α).Yields P :=
  fun _ _ _ hrun => nomatch (Prod.mk.inj hrun).1

theorem Yields.mono (h : x.Yields P) (hP : ∀ a, P a → P' a) : x.Yields P' :=
  fun s a s' hrun => hP a (h s a s' hrun)

theorem Yields.bind (h : x.Yields P) (hf : ∀ a, P a → (f a).Yields Q) : (x >>= f).Yields Q := by
  intro s b s' hrun
  rw [Outcome.run_bind] at hrun
  rcases hx : x.run.run s with ⟨e | a, s₁⟩
  · rw [hx] at hrun
    cases hrun
  · rw [hx] at hrun
    exact hf a (h s a s₁ hx) s₁ b s' hrun

/-- Whatever comes before does not matter. -/
theorem Yields.after (hf : ∀ a, (f a).Yields Q) : (x >>= f).Yields Q :=
  Yields.bind (P := fun _ => True) (fun _ _ _ _ => trivial) fun a _ => hf a

end Stage

namespace TupleIndex

variable [Cell V] {x : TupleIndex V} {known : TupleId → Prop} {t : TupleId}

/-- No key has a bucket without tuples. -/
def Filled (x : TupleIndex V) : Prop := ∀ k, x.buckets.get? k ≠ some []

theorem filled_empty : (empty : TupleIndex V).Filled := fun _ => nofun

theorem isSome_of_mem_withKey {k : Key V} (h : x.Holds known) (ht : t ∈ x.withKey k) :
    (x.keys.get? t).isSome := by
  obtain ⟨l, hl, -⟩ := (h.mem_withKey t k).mp ht
  rw [hl]
  rfl

variable [Std.TransOrd V]

theorem Filled.insert (h : x.Filled) (t : TupleId) (k : Key V) : (x.insert t k).Filled := by
  intro l
  unfold TupleIndex.insert
  rw [Table.get?_insert]
  split
  · intro hnil
    have hmem : t ∈ includeTuple t (x.withKey k) := mem_includeTuple.mpr (Or.inl rfl)
    rw [Option.some.inj hnil] at hmem
    cases hmem
  · exact h l

theorem Filled.remove (h : x.Filled) (hx : x.Holds known) (t : TupleId) : (x.remove t).Filled := by
  intro l
  unfold TupleIndex.remove
  split
  · exact h l
  · rename_i k _
    unfold removeFrom
    split
    · exact h l
    · rename_i ids _
      dsimp only
      split
      · rw [hx.buckets_distinct.get?_erase]
        split
        · nofun
        · exact h l
      · rename_i hrest
        rw [Table.get?_insert]
        split
        · intro hnil
          rw [Option.some.inj hnil] at hrest
          exact hrest rfl
        · exact h l

end TupleIndex

namespace JoinNode

variable [Cell V]

/-- Tuples have pairs and lists of partners only while they are indexed. -/
structure Tidy (n : JoinNode V) : Prop where
  left : n.left.Filled
  right : n.right.Filled
  byLeft : n.byLeft.Within n.left.keys
  byRight : n.byRight.Within n.right.keys

theorem tidy_new (indexer : JoinIndexer V) : Tidy ⟨indexer, .empty, .empty, .empty, .empty⟩ :=
  ⟨TupleIndex.filled_empty, TupleIndex.filled_empty, Table.within_empty _, Table.within_empty _⟩

variable {n n' : JoinNode V} {side : Side} {t l r : TupleId} {known : TupleId → Prop}

/-- A tidy node with the same tuples. -/
structure Retidied (n n' : JoinNode V) : Prop where
  left : n'.left = n.left
  right : n'.right = n.right
  tidy : n'.Tidy

/-- Both tuples of a pair are indexed. -/
def Indexed (n : JoinNode V) (l r : TupleId) : Prop :=
  (n.left.keys.get? l).isSome ∧ (n.right.keys.get? r).isSome

theorem refreshPair_tidy (h : n.Tidy) (hlr : n.Indexed l r) :
    (n.refreshPair l r).Yields (Retidied n) := by
  unfold refreshPair
  refine .after fun left => .after fun right => .after fun passes => ?_
  split
  · exact .after fun _ => .of_pure ⟨rfl, rfl, h⟩
  · refine .after fun _ => .of_pure ⟨rfl, rfl, h.left, h.right, ?_, ?_⟩
    · exact (Table.within_modify _ _ _).trans h.byLeft
    · exact (Table.within_modify _ _ _).trans h.byRight
  · exact .after fun out => .of_pure ⟨rfl, rfl, h.left, h.right, h.byLeft.insert hlr.1 _,
      h.byRight.insert hlr.2 _⟩
  · exact .of_pure ⟨rfl, rfl, h⟩

theorem refreshAll_tidy {others : List TupleId} (h : n.Tidy)
    (hothers : ∀ other ∈ others, n.Indexed (oriented side t other).1 (oriented side t other).2) :
    (n.refreshAll side t others).Yields (Retidied n) := by
  induction others generalizing n with
  | nil => exact .of_pure ⟨rfl, rfl, h⟩
  | cons other others ih =>
      obtain ⟨hother, hothers⟩ := List.forall_mem_cons.mp hothers
      unfold refreshAll
      refine (refreshPair_tidy h hother).bind fun n₁ h₁ => ?_
      have hrest : ∀ other ∈ others,
          n₁.Indexed (oriented side t other).1 (oriented side t other).2 := by
        unfold Indexed
        rw [h₁.left, h₁.right]
        exact hothers
      exact (ih h₁.tidy hrest).mono fun n₂ h₂ =>
        ⟨h₂.left.trans h₁.left, h₂.right.trans h₁.right, h₂.tidy⟩

omit [Cell V] in
theorem retractRights_within {byRight : Table TupleId (List TupleId)}
    {outs : List (TupleId × TupleId)} : (retractRights l byRight outs : Stage V _).Yields
      fun byRight' => byRight'.Within byRight := by
  induction outs generalizing byRight with
  | nil => exact .of_pure fun _ => id
  | cons entry outs ih =>
      unfold retractRights
      exact .after fun _ => ih.mono fun T hT => hT.trans (Table.within_modify _ _ _)

omit [Cell V] in
theorem retractLefts_within {byLeft : Table TupleId (Table TupleId TupleId)} {ls : List TupleId} :
    (retractLefts r byLeft ls : Stage V _).Yields fun byLeft' => byLeft'.Within byLeft := by
  induction ls generalizing byLeft with
  | nil => exact .of_pure fun _ => id
  | cons l ls ih =>
      unfold retractLefts
      split
      · exact .after fun _ => ih.mono fun T hT => hT.trans (Table.within_modify _ _ _)
      · exact ih

variable [Std.TransOrd V]

/-- A tidy node with the same tuples on the other side. -/
structure Left (side : Side) (n n' : JoinNode V) : Prop where
  opposite : n'.opposite side = n.opposite side
  tidy : n'.Tidy

theorem retract_tidy (h : n.Tidy) (hx : (n.index side).Holds known) (hp : n.Paired) :
    (n.retract side t).Yields (Left side n) := by
  unfold retract
  cases side with
  | left =>
      refine retractRights_within.bind fun byRight hwithin => .of_pure ⟨rfl, ?_, h.right, ?_, ?_⟩
      · exact h.left.remove hx t
      · exact h.byLeft.erase hp.outputs.distinct fun l hl =>
          (hx.keys_remove t l).trans (if_neg (by simpa using hl))
      · exact hwithin.trans h.byRight
  | right =>
      refine retractLefts_within.bind fun byLeft hwithin => .of_pure ⟨rfl, h.left, ?_, ?_, ?_⟩
      · exact h.right.remove hx t
      · exact hwithin.trans h.byLeft
      · exact h.byRight.erase hp.links.distinct fun r hr =>
          (hx.keys_remove t r).trans (if_neg (by simpa using hr))

theorem insert_tidy (h : n.Tidy) (hx : (n.opposite side).Holds known) :
    (n.insert side t).Yields Tidy := by
  unfold insert
  refine .after fun row => .after fun k => ?_
  have hindexed : (n.indexed side t k).Tidy := by
    cases side with
    | left => exact ⟨h.left.insert t k, h.right, h.byLeft.trans (Table.within_insert _ t k), h.byRight⟩
    | right =>
        exact ⟨h.left, h.right.insert t k, h.byLeft, h.byRight.trans (Table.within_insert _ t k)⟩
  refine (refreshAll_tidy hindexed fun other hother => ?_).mono fun n' hn' => hn'.tidy
  have hkey := TupleIndex.isSome_of_mem_withKey hx hother
  cases side with
  | left => exact ⟨by simp [indexed, oriented, TupleIndex.insert, Table.get?_insert], hkey⟩
  | right => exact ⟨hkey, by simp [indexed, oriented, TupleIndex.insert, Table.get?_insert]⟩

theorem onEvent_tidy {h : Hearing} {ρ : TupleId → Row V} {e : Event} (ht : n.Tidy)
    (hb : n.Books h ρ) : (n.onEvent side e t).Yields Tidy := by
  have hopposite : ∃ known, (n.opposite side).Holds known := by
    cases side with
    | left => exact ⟨_, hb.holds .right⟩
    | right => exact ⟨_, hb.holds .left⟩
  obtain ⟨known, hopposite⟩ := hopposite
  cases e with
  | insert => exact insert_tidy ht hopposite
  | retract => exact (retract_tidy ht (hb.holds side) hb.paired).mono fun n' hn' => hn'.tidy
  | update =>
      change (n.update side t).Yields Tidy
      unfold update
      refine .after fun row => .after fun k => ?_
      split
      · rename_i hkey
        refine (refreshAll_tidy ht fun other hother => ?_).mono fun n' hn' => hn'.tidy
        have hself : ((n.index side).keys.get? t).isSome := by
          unfold TupleIndex.hasKey at hkey
          split at hkey
          · rename_i hsome
            rw [hsome]
            rfl
          · cases hkey
        have hother := TupleIndex.isSome_of_mem_withKey hopposite hother
        cases side with
        | left => exact ⟨hself, hother⟩
        | right => exact ⟨hother, hself⟩
      · refine (retract_tidy ht (hb.holds side) hb.paired).bind fun n' hn' => ?_
        exact insert_tidy hn'.tidy (hn'.opposite ▸ hopposite)

end JoinNode

namespace ExistsNode

variable [Cell V]

/-- Right tuples have lists of partners only while they are indexed. -/
structure Tidy (n : ExistsNode V) : Prop where
  left : n.left.Filled
  right : n.right.Filled
  rights : n.rights.Within n.right.keys

theorem tidy_new (shouldExist : Bool) (indexer : JoinIndexer V) :
    Tidy ⟨shouldExist, indexer, .empty, .empty, .empty, .empty⟩ :=
  ⟨TupleIndex.filled_empty, TupleIndex.filled_empty, Table.within_empty _⟩

variable {n n' : ExistsNode V} {side : Side} {t l r : TupleId} {known : TupleId → Prop}

theorem Tidy.alike (h : n.Tidy) (ha : Alike n n') : n'.Tidy := by
  refine ⟨?_, ?_, ?_⟩
  · rw [ha.left]
    exact h.left
  · rw [ha.right]
    exact h.right
  · rw [ha.rights, ha.right]
    exact h.rights

omit [Cell V] in
theorem Alike.trans {n'' : ExistsNode V} (h : Alike n n') (h' : Alike n' n'') : Alike n n'' :=
  ⟨h'.shouldExist.trans h.shouldExist, h'.indexer.trans h.indexer, h'.left.trans h.left,
    h'.right.trans h.right, h'.rights.trans h.rights⟩

omit [Cell V] in
theorem refreshOutput_alike {rowChanged : Bool} :
    (n.refreshOutput l rowChanged).Yields (Alike n) := by
  unfold refreshOutput
  split
  · exact .of_pure ⟨rfl, rfl, rfl, rfl, rfl⟩
  · split
    · split
      · exact .after fun row => .after fun _ => .of_pure ⟨rfl, rfl, rfl, rfl, rfl⟩
      · exact .of_pure ⟨rfl, rfl, rfl, rfl, rfl⟩
    · exact .after fun _ => .of_pure ⟨rfl, rfl, rfl, rfl, rfl⟩
    · exact .after fun row => .after fun out => .of_pure ⟨rfl, rfl, rfl, rfl, rfl⟩
    · exact .of_pure ⟨rfl, rfl, rfl, rfl, rfl⟩

omit [Cell V] in
theorem attach_alike : (n.attach l r).Yields (Alike n) := by
  unfold attach
  split
  · exact .of_pure ⟨rfl, rfl, rfl, rfl, rfl⟩
  · dsimp only
    split
    · exact refreshOutput_alike.mono fun n' h => ⟨h.shouldExist, h.indexer, h.left, h.right, h.rights⟩
    · exact .of_pure ⟨rfl, rfl, rfl, rfl, rfl⟩

omit [Cell V] in
theorem detach_alike : (n.detach l r).Yields (Alike n) := by
  unfold detach
  split
  · exact .of_pure ⟨rfl, rfl, rfl, rfl, rfl⟩
  · split
    · exact .of_throw _ _
    · dsimp only
      split
      · exact refreshOutput_alike.mono fun n' h =>
          ⟨h.shouldExist, h.indexer, h.left, h.right, h.rights⟩
      · exact .of_pure ⟨rfl, rfl, rfl, rfl, rfl⟩

omit [Cell V] in
theorem attachAll_alike {ls : List TupleId} : (attachAll r n ls).Yields (Alike n) := by
  induction ls generalizing n with
  | nil => exact .of_pure ⟨rfl, rfl, rfl, rfl, rfl⟩
  | cons l ls ih => exact attach_alike.bind fun n' hn' => ih.mono fun n'' hn'' => hn'.trans hn''

omit [Cell V] in
theorem detachAll_alike {ls : List TupleId} : (detachAll r n ls).Yields (Alike n) := by
  induction ls generalizing n with
  | nil => exact .of_pure ⟨rfl, rfl, rfl, rfl, rfl⟩
  | cons l ls ih => exact detach_alike.bind fun n' hn' => ih.mono fun n'' hn'' => hn'.trans hn''

omit [Cell V] in
theorem matchingRights_sublist {indexer : JoinIndexer V} {row : Row V} {rs : List TupleId} :
    (matchingRights indexer row rs).Yields (·.Sublist rs) := by
  induction rs with
  | nil => exact .of_pure (.refl [])
  | cons r rs ih =>
      unfold matchingRights
      refine .after fun other => .after fun passes => ih.bind fun rest hrest => .of_pure ?_
      split
      · exact hrest.cons_cons r
      · exact hrest.cons r

omit [Cell V] in
theorem unlink_within (l : TupleId) (T : Table TupleId (List TupleId)) (rs : List TupleId) :
    (unlink l T rs).Within T := by
  unfold unlink
  induction rs generalizing T with
  | nil => exact fun _ => id
  | cons r rs ih => exact (ih _).trans (Table.within_modify T r _)

omit [Cell V] in
theorem link_within {T : Table TupleId (List TupleId)} {U : Table TupleId (Key V)}
    {rs : List TupleId} (h : T.Within U) (hrs : ∀ r ∈ rs, (U.get? r).isSome) :
    (link l T rs).Within U := by
  unfold link
  induction rs generalizing T with
  | nil => exact h
  | cons r rs ih =>
      obtain ⟨hr, hrs⟩ := List.forall_mem_cons.mp hrs
      exact ih (h.insert hr _) hrs

/-- A right tuple with its list of partners, once it is indexed. -/
theorem Tidy.withRight (h : n.Tidy) (hr : (n.right.keys.get? r).isSome) (ls : List TupleId) :
    Tidy { n with rights := n.rights.insert r ls } :=
  ⟨h.left, h.right, h.rights.insert hr ls⟩

variable [Std.TransOrd V]

theorem forgetLeft_tidy (h : n.Tidy) (hx : n.left.Holds known) (l : TupleId) :
    (n.forgetLeft l).1.Tidy ∧ (n.forgetLeft l).1.right = n.right := by
  unfold forgetLeft
  split
  · exact ⟨⟨h.left.remove hx l, h.right, h.rights⟩, rfl⟩
  · exact ⟨⟨h.left.remove hx l, h.right, (unlink_within l n.rights _).trans h.rights⟩, rfl⟩

theorem countLeft_tidy {output : Option TupleId} {rowChanged : Bool} (h : n.Tidy)
    (hx : n.right.Holds known) : (n.countLeft l output rowChanged).Yields Tidy := by
  unfold countLeft
  refine .after fun row => .after fun k => matchingRights_sublist.bind fun matched hmatched => ?_
  refine refreshOutput_alike.mono fun n' hn' => Tidy.alike ?_ hn'
  exact ⟨h.left.insert l k, h.right, link_within h.rights fun r hr =>
    TupleIndex.isSome_of_mem_withKey hx (hmatched.mem hr)⟩

theorem onLeft_tidy {known' : TupleId → Prop} {e : Event} (h : n.Tidy) (hl : n.left.Holds known)
    (hr : n.right.Holds known') : (n.onLeft e t).Yields Tidy := by
  obtain ⟨hforgot, hright⟩ := forgetLeft_tidy h hl t
  cases e with
  | insert => exact countLeft_tidy h hr
  | update => exact countLeft_tidy hforgot (hright ▸ hr)
  | retract =>
      unfold onLeft
      dsimp only
      split
      · exact .after fun _ => .of_pure hforgot
      · exact .of_pure hforgot

theorem onRight_tidy {e : Event} (h : n.Tidy) (hx : n.right.Holds known) (hlinks : Links n.rights) :
    (n.onRight e t).Yields Tidy := by
  have herased : Tidy { n with right := n.right.remove t, rights := n.rights.erase t } :=
    ⟨h.left, h.right.remove hx t, h.rights.erase hlinks.distinct fun r hr =>
      (hx.keys_remove t r).trans (if_neg (by simpa using hr))⟩
  have hindexed : ∀ {n : ExistsNode V} (k : Key V), n.Tidy →
      Tidy { n with right := n.right.insert t k } := fun k hn =>
    ⟨hn.left, hn.right.insert t k, hn.rights.trans (Table.within_insert _ t k)⟩
  have hself : ∀ {n n' : ExistsNode V} {x : TupleIndex V} {k : Key V}, n.right = x.insert t k →
      Alike n n' → (n'.right.keys.get? t).isSome := by
    intro n n' x k hn ha
    rw [ha.right, hn]
    simp [TupleIndex.insert, Table.get?_insert]
  cases e with
  | insert =>
      unfold onRight
      refine .after fun row => .after fun k => .after fun matched => ?_
      refine attachAll_alike.bind fun n' hn' => .of_pure ?_
      exact ((hindexed k h).alike hn').withRight (hself rfl hn') matched
  | update =>
      unfold onRight
      refine .after fun row => .after fun k => .after fun current => ?_
      refine detachAll_alike.bind fun n₁ h₁ => attachAll_alike.bind fun n₂ h₂ => .of_pure ?_
      have hn₂ := h₁.trans h₂
      exact ((hindexed k herased).alike hn₂).withRight (hself rfl hn₂) current
  | retract => exact detachAll_alike.mono fun n' hn' => herased.alike hn'

theorem onEvent_tidy {h : Hearing} {ρ : TupleId → Row V} {e : Event} (ht : n.Tidy)
    (hb : n.Books h ρ) : (n.onEvent side e t).Yields Tidy := by
  cases side with
  | left => exact onLeft_tidy ht (hb.holds .left) (hb.holds .right)
  | right => exact onRight_tidy ht (hb.holds .right) hb.links

end ExistsNode

namespace FlattenNode

/-- No input has an expansion without items. -/
def Tidy (n : FlattenNode V) : Prop := ∀ t, n.outputs.get? t ≠ some []

variable {n : FlattenNode V} {t : TupleId}

theorem tidy_erase (h : n.Tidy) (hd : n.outputs.Distinct) :
    Tidy { n with outputs := n.outputs.erase t } := by
  intro u
  rw [hd.get?_erase]
  split
  · nofun
  · exact h u

theorem onEvent_tidy {e : Event} (h : n.Tidy) (hd : n.outputs.Distinct) :
    (n.onEvent e t).Yields Tidy := by
  have hrefit : (do
      let rows ← Stage.ofExcept (n.images (← Stage.rowOf t))
      let outs ← refit (n.outputs.getD t []) rows
      if outs.isEmpty then return { n with outputs := n.outputs.erase t }
      else return { n with outputs := n.outputs.insert t outs } : Stage V (FlattenNode V)).Yields
      Tidy := by
    refine .after fun row => .after fun rows => .after fun outs => ?_
    split
    · exact .of_pure (tidy_erase h hd)
    · rename_i houts
      refine .of_pure fun u => ?_
      rw [Table.get?_insert]
      split
      · intro hnil
        rw [Option.some.inj hnil] at houts
        exact houts rfl
      · exact h u
  cases e with
  | insert | update => exact hrefit
  | retract => exact .after fun _ => .of_pure (tidy_erase h hd)

end FlattenNode

namespace NodeKind

/-- A node without entries that its books do not show. -/
def Tidy [Cell V] : NodeKind V S → Prop
  | flatten n => n.Tidy
  | join n => n.Tidy
  | «exists» n => n.Tidy
  | _ => True

variable [Cell V] {k k' : NodeKind V S}

theorem tidy_of_blank (hk : k.blank = k) : k.Tidy := by
  rw [← hk]
  cases k with
  | flatten n => exact fun t => nofun
  | join n => exact JoinNode.tidy_new n.indexer
  | «exists» n => exact ExistsNode.tidy_new n.shouldExist n.indexer
  | _ => trivial

variable [Std.TransOrd V] [Score S] {h : Hearing} {ρ : TupleId → Row V} {side : Side} {e : Event}
  {t : TupleId}

/-- Hearing of an event keeps a node tidy. -/
theorem onEvent_tidy (ht : k.Tidy) (hb : k.Books h ρ) : (k.onEvent side e t).Yields Tidy := by
  cases k with
  | flatten n => exact (FlattenNode.onEvent_tidy ht hb.distinct).bind fun n' hn' => .of_pure hn'
  | join n => exact (JoinNode.onEvent_tidy ht hb).bind fun n' hn' => .of_pure hn'
  | «exists» n => exact (ExistsNode.onEvent_tidy ht hb).bind fun n' hn' => .of_pure hn'
  | filter n | map n | concat n | group n => exact .after fun n' => .of_pure trivial
  | source n | foreBridge side | aftBridge | score n => exact .of_pure trivial

end NodeKind

end ConstraintScoring
