import ConstraintScoring.Proofs.Node.Group
import ConstraintScoring.Proofs.Node.Life

/-!
# The groups of a grouping

However the events of its inputs come, a grouping has a group for each key of what its inputs were
recorded to contribute, and shows what new accumulators would show that are given these
contributions. An event concerns the groups that its input leaves and joins only, and it makes no
difference that the accumulators of groups that are gone are used again.
-/

namespace ConstraintScoring.GroupNode

variable {V : Type}

/-- What the group with a key shows itself as. -/
def outputOf [Cell V] (n : GroupNode V) (k : Key V) : Option TupleId :=
  (n.groups.get? k).bind (·.output)

section Feeding

variable [Cell V] [Std.TransOrd V] {as : List (Accumulator V)} {kinds : List CollectorKind}
  {bag : Multiset (List (Contribution V))} {given : List (List (Contribution V))}

/-- New accumulators that were given contributions one after another. -/
def feed (kinds : List CollectorKind) (given : List (List (Contribution V))) :
    Except Fault (List (Accumulator V)) :=
  given.foldlM accumulateAll (kinds.map .new)

theorem foldlM_reflects (h : AllReflect as kinds bag) (hfit : ∀ cs ∈ given, AllFit cs kinds) :
    (∃ as', given.foldlM accumulateAll as = .ok as' ∧ AllReflect as' kinds (given + bag)) ∨
      ∃ f, given.foldlM accumulateAll as = .error f ∧ SumFault f := by
  induction given generalizing as bag with
  | nil => exact Or.inl ⟨as, rfl, by simpa using h⟩
  | cons cs given ih =>
      have hcs := hfit cs List.mem_cons_self
      rw [List.foldlM_cons]
      cases hone : accumulateAll as cs with
      | error f => exact Or.inr ⟨f, rfl, accumulateAll_fault h hcs hone⟩
      | ok as₁ =>
          have h₁ := (accumulateAll_reflects h hcs.length_eq hone).1
          have hadd : (given : Multiset (List (Contribution V))) + cs ::ₘ bag =
              ((cs :: given : List _) : Multiset _) + bag := by
            rw [Multiset.add_cons, ← Multiset.cons_coe, Multiset.cons_add]
          rw [← hadd]
          exact ih h₁ fun cs' hcs' => hfit cs' (List.mem_cons_of_mem cs hcs')

theorem feed_reflects (hfit : ∀ cs ∈ given, AllFit cs kinds) :
    (∃ as, feed kinds given = .ok as ∧ AllReflect as kinds given) ∨
      ∃ f, feed kinds given = .error f ∧ SumFault f := by
  have h := foldlM_reflects (allReflect_new (V := V) kinds) hfit
  rwa [add_zero] at h

end Feeding

section Steps

variable [Cell V] {n n' : GroupNode V} {k : Key V} {t : TupleId} {m : GroupMember V}
  {s : Staging V} {e : Event}

/-- What folding a member in does: the group has it from now on, and was made if it was not there. -/
theorem foldIn_ok (h : n.foldIn t m = .ok n') : ∃ entry as,
    (n.groups.get? m.key = some entry ∨ n.groups.get? m.key = none ∧
      entry = ⟨m.key.cells, 0, n.takeAccumulators.1, none⟩) ∧
    accumulateAll entry.accumulators m.contributions = .ok as ∧
    n'.groups = n.groups.insert m.key
      { entry with accumulators := as, size := entry.size + 1 } ∧
    n'.members = n.members.insert t m ∧ (∀ as ∈ n'.spare, as ∈ n.spare) ∧ Alike n n' := by
  unfold foldIn at h
  cases hk : n.groups.get? m.key with
  | some entry =>
      simp only [hk] at h
      obtain ⟨as, has, h⟩ := Outcome.bind_eq_ok.mp h
      obtain rfl := Except.ok.inj h
      exact ⟨entry, as, Or.inl rfl, has, rfl, rfl, fun _ => id, ⟨rfl, rfl⟩⟩
  | none =>
      simp only [hk] at h
      obtain ⟨as, has, h⟩ := Outcome.bind_eq_ok.mp h
      obtain rfl := Except.ok.inj h
      refine ⟨_, as, Or.inr ⟨rfl, rfl⟩, has, rfl, rfl, fun spared hspared => ?_, ⟨rfl, rfl⟩⟩
      simp only [takeAccumulators] at hspared
      split at hspared <;> simp_all

theorem foldOut_ok (h : n.foldOut m = .ok n') : ∃ entry as,
    n.groups.get? m.key = some entry ∧
    retractAll entry.accumulators m.contributions = .ok as ∧
    n'.groups = n.groups.insert m.key
      { entry with accumulators := as, size := entry.size - 1 } ∧
    n'.members = n.members ∧ n'.spare = n.spare ∧ Alike n n' := by
  unfold foldOut at h
  cases hk : n.groups.get? m.key with
  | none =>
      rw [hk] at h
      cases h
  | some entry =>
      simp only [hk] at h
      obtain ⟨as, has, h⟩ := Outcome.bind_eq_ok.mp h
      obtain rfl := Except.ok.inj h
      exact ⟨entry, as, rfl, has, rfl, rfl, rfl, ⟨rfl, rfl⟩⟩

/-- What looking at the output of a group may do to the groups, `out` being the next tuple. -/
inductive Looked (n : GroupNode V) (k : Key V) (out : TupleId) : GroupNode V → Prop where
  | same : Looked n k out n
  | gone {entry} : n.groups.get? k = some entry → Looked n k out { n with
      groups := n.groups.erase k
      spare := entry.accumulators.map (·.reset) :: n.spare }
  | shown {entry} : n.groups.get? k = some entry →
      Looked n k out { n with groups := n.groups.insert k { entry with output := some out } }

theorem refresh_looked (n : GroupNode V) (k : Key V) (s : Staging V) :
    (n.refresh k).Ensures s
      (fun n' s' => n.Looked k s.arena.next n' ∧ s.arena.Grows s'.arena) fun _ => True := by
  have hrefl : s.arena.Grows s.arena := fun hv => ⟨hv, fun _ => id⟩
  unfold refresh
  cases hk : n.groups.get? k with
  | none => exact .of_pure ⟨.same, hrefl⟩
  | some entry =>
      dsimp only
      split
      · cases entry.output with
        | some out =>
            refine .of_bind (Stage.retract_grows.mono (fun _ _ h => ?_) fun _ hf => hf)
            exact .of_pure ⟨.gone hk, h⟩
        | none => exact .of_bind (.of_pure (.of_pure ⟨.gone hk, hrefl⟩))
      · cases entry.output with
        | some out =>
            refine .of_bind (Stage.update_grows.mono (fun _ _ h => ?_) fun _ hf => hf)
            exact .of_pure ⟨.same, h⟩
        | none =>
            refine .of_bind (Stage.insert_grows.mono (fun out s' h => ?_) fun _ hf => hf)
            obtain ⟨rfl, h⟩ := h
            exact .of_pure ⟨.shown hk, h⟩

theorem Looked.members {out : TupleId} (h : n.Looked k out n') : n'.members = n.members := by
  cases h <;> rfl

variable [Std.TransOrd V]

omit [Std.TransOrd V] in
theorem Looked.distinct {out : TupleId} (h : n.Looked k out n') (hd : n.groups.Distinct) :
    n'.groups.Distinct := by
  cases h with
  | same => exact hd
  | gone => exact hd.erase k
  | shown => exact hd.insert k _

theorem Looked.get? {out : TupleId} (h : n.Looked k out n') (hd : n.groups.Distinct) (l : Key V) :
    n'.groups.get? l = n.groups.get? l ∨ (k == l) = true ∧ (n'.groups.get? l = none ∨
      ∃ entry, n.groups.get? l = some entry ∧
        n'.groups.get? l = some { entry with output := some out }) := by
  cases h with
  | same => exact Or.inl rfl
  | gone =>
      change (n.groups.erase k).get? l = _ ∨ _ ∧ ((n.groups.erase k).get? l = none ∨ _)
      rw [hd.get?_erase]
      split
      · rename_i hkl
        exact Or.inr ⟨hkl, Or.inl rfl⟩
      · exact Or.inl rfl
  | @shown entry hk =>
      change (n.groups.insert k _).get? l = _ ∨ _
      cases hkl : k == l with
      | true =>
          have hget := (Table.get?_congr n.groups hkl).symm.trans hk
          refine Or.inr ⟨rfl, Or.inr ⟨entry, hget, ?_⟩⟩
          exact (Table.get?_insert ..).trans (if_pos hkl)
      | false => exact Or.inl (Table.get?_insert_other _ _ hkl)

end Steps

section Events

variable [Cell V] [Std.TransOrd V] {n n' n₁ n₂ : GroupNode V} {k : Key V} {t : TupleId}
  {m : GroupMember V} {s s' s₁ : Staging V} {e : Event}

/-- What an event has its input contribute from then on. -/
def contributed? (n : GroupNode V) (e : Event) (row : Row V) : Option (GroupMember V) :=
  match e with
  | .insert | .update => (n.member row).toOption
  | .retract => none

/-- What an input contributed before an event or contributes after it. -/
def Concerns (n : GroupNode V) (e : Event) (t : TupleId) (row : Row V) (m : GroupMember V) : Prop :=
  n.members.get? t = some m ∨ n.contributed? e row = some m

omit [Std.TransOrd V] in
/-- What holds once the record of an input is gone, and still does when the input is folded out and
in and the outputs of its groups are looked at, holds after the event. -/
theorem onEvent_steps {P : GroupNode V → Staging V → Prop} (hd : n.members.Distinct)
    (hinsert : e = .insert → n.members.get? t = none)
    (hstart : P { n with members := n.members.erase t } s)
    (hout : ∀ {p n₁ n₂}, n.members.get? t = some p → P n₁ s → n₁.foldOut p = .ok n₂ → P n₂ s)
    (hin : ∀ {m n₁ n₂}, n.contributed? e (s.arena.row t) = some m → n₁.members.get? t = none →
      P n₁ s → n₁.foldIn t m = .ok n₂ → P n₂ s)
    (hrefresh : ∀ {m n₁ s₁}, n.Concerns e t (s.arena.row t) m → P n₁ s₁ →
      (n₁.refresh m.key).Ensures s₁ P fun _ => True) :
    (n.onEvent e t).Ensures s P fun _ => True := by
  have hunknown : n.members.get? t = none → P n s := fun ht => by
    rwa [Table.erase_of_none ht] at hstart
  -- An input without a record is folded in and its group looked at.
  have hadd : (e = .insert ∨ e = .update) → n.members.get? t = none →
      (n.add t).Ensures s P fun _ => True := by
    intro he ht
    refine .of_bind (.of_rowOf (.of_bind (.of_except (fun m hm => ?_) fun _ _ => trivial)))
    have hm : n.contributed? e (s.arena.row t) = some m := by
      rcases he with rfl | rfl <;> exact congrArg Except.toOption hm
    refine .of_bind (.of_except (fun n₁ hn₁ => ?_) fun _ _ => trivial)
    exact hrefresh (Or.inr hm) (hin hm ht (hunknown ht) hn₁)
  cases e with
  | insert => exact hadd (Or.inl rfl) (hinsert rfl)
  | update =>
      unfold onEvent
      cases ht : n.members.get? t with
      | none => exact hadd (Or.inr rfl) ht
      | some p =>
          refine .of_bind (.of_except (fun n₁ hn₁ => ?_) fun _ _ => trivial)
          obtain ⟨-, -, -, -, -, hmembers, -, halike⟩ := foldOut_ok hn₁
          have ht₁ : n₁.members.get? t = none := by
            rw [hmembers]
            exact (hd.get?_erase t t).trans (if_pos BEq.rfl)
          refine .of_bind (.of_rowOf (.of_bind (.of_except (fun m hm => ?_) fun _ _ => trivial)))
          rw [halike.member] at hm
          have hm : n.contributed? .update (s.arena.row t) = some m := congrArg Except.toOption hm
          refine .of_bind (.of_except (fun n₂ hn₂ => ?_) fun _ _ => trivial)
          have h₂ := hin hm ht₁ (hout ht hstart hn₁) hn₂
          split
          · exact .of_bind (.of_pure (hrefresh (Or.inr hm) h₂))
          · refine .of_bind ((hrefresh (Or.inl ht) h₂).mono (fun n₃ s₃ h₃ => ?_) fun _ hf => hf)
            exact hrefresh (Or.inr hm) h₃
  | retract =>
      unfold onEvent
      cases ht : n.members.get? t with
      | none => exact .of_pure (hunknown ht)
      | some p =>
          refine .of_bind (.of_except (fun n₁ hn₁ => ?_) fun _ _ => trivial)
          exact hrefresh (Or.inl ht) (hout ht hstart hn₁)

/-- What has become of a grouping that hears of an event. -/
structure Underway (n : GroupNode V) (s : Staging V) (e : Event) (t : TupleId) (n₁ : GroupNode V)
    (s₁ : Staging V) : Prop where
  valid : s₁.arena.Valid
  occupied : ∀ x, s.arena.Occupied x → s₁.arena.Occupied x
  distinct : n₁.groups.Distinct
  members : n₁.members = n.members.erase t ∨
    ∃ m, n.contributed? e (s.arena.row t) = some m ∧ n₁.members = (n.members.erase t).insert t m
  groups : ∀ k, (∀ m, n.Concerns e t (s.arena.row t) m → (m.key == k) = false) →
    n₁.groups.get? k = n.groups.get? k
  output : ∀ k out, n₁.outputOf k = some out → n.outputOf k = some out ∨ ¬s.arena.Occupied out

omit [Std.TransOrd V] in
theorem outputOf_eq {entry : GroupEntry V} (h : n.groups.get? k = some entry) :
    n.outputOf k = entry.output := by
  rw [outputOf, h, Option.bind_some]

/-- An entry in place of one with the same output. -/
theorem outputOf_insert {entry : GroupEntry V} (hgroups : n₁.groups = n.groups.insert k entry)
    (hout : entry.output = n.outputOf k) (l : Key V) : n₁.outputOf l = n.outputOf l := by
  rw [outputOf, hgroups, Table.get?_insert]
  split
  · rename_i hkl
    rw [Option.bind_some, hout, outputOf, Table.get?_congr n.groups hkl, outputOf]
  · rfl

theorem Underway.refresh (h : n.Underway s e t n₁ s₁) (hm : n.Concerns e t (s.arena.row t) m) :
    (n₁.refresh m.key).Ensures s₁ (n.Underway s e t) fun _ => True := by
  refine (refresh_looked n₁ m.key s₁).mono ?_ fun _ hf => hf
  rintro n₂ s₂ ⟨hlook, hgrow⟩
  obtain ⟨hvalid, hocc⟩ := hgrow h.valid
  have hget := hlook.get? h.distinct
  refine ⟨hvalid, fun x hx => hocc x (h.occupied x hx), hlook.distinct h.distinct,
    hlook.members ▸ h.members, fun k hk => ?_, fun k out hout => ?_⟩
  · rw [← h.groups k hk]
    refine (hget k).resolve_right fun hkey => ?_
    rw [hk m hm] at hkey
    cases hkey.1
  · rcases hget k with hsame | ⟨-, hgone | ⟨entry, hentry, hnew⟩⟩
    · refine h.output k out ?_
      rwa [outputOf, ← hsame]
    · rw [outputOf, hgone] at hout
      cases hout
    · rw [outputOf_eq hnew] at hout
      cases hout
      exact Or.inr fun hx => s₁.arena.not_occupied_next (h.occupied _ hx)

/-- Folding a member in or out changes the entry of its group only, and not its output. -/
theorem Underway.fold {entry : GroupEntry V} (h : n.Underway s e t n₁ s₁)
    (hm : n.Concerns e t (s.arena.row t) m)
    (hgroups : n₂.groups = n₁.groups.insert m.key entry) (hout : entry.output = n₁.outputOf m.key)
    (hmembers : n₂.members = n.members.erase t ∨ ∃ m, n.contributed? e (s.arena.row t) = some m ∧
      n₂.members = (n.members.erase t).insert t m) : n.Underway s e t n₂ s₁ where
  valid := h.valid
  occupied := h.occupied
  distinct := hgroups ▸ h.distinct.insert _ _
  members := hmembers
  groups k hk := by rw [hgroups, Table.get?_insert_other _ _ (hk m hm), h.groups k hk]
  output k out hk := h.output k out (outputOf_insert hgroups hout k ▸ hk)

theorem onEvent_underway (hd : n.members.Distinct) (hdist : n.groups.Distinct)
    (hv : s.arena.Valid) (hinsert : e = .insert → n.members.get? t = none) :
    (n.onEvent e t).Ensures s (n.Underway s e t) fun _ => True := by
  refine onEvent_steps hd hinsert ?_ (fun ht h hok => ?_) (fun hm ht h hok => ?_) fun hm h =>
    h.refresh hm
  · exact ⟨hv, fun _ => id, hdist, Or.inl rfl, fun _ _ => rfl, fun _ _ => Or.inl⟩
  · obtain ⟨entry, as, hk, -, hgroups, hmembers, -⟩ := foldOut_ok hok
    exact h.fold (Or.inl ht) hgroups (outputOf_eq hk).symm (hmembers ▸ h.members)
  · obtain ⟨entry, as, hk, -, hgroups, hmembers, -⟩ := foldIn_ok hok
    refine h.fold (Or.inr hm) hgroups ?_ (Or.inr ⟨_, hm, ?_⟩)
    · rcases hk with hk | ⟨hk, rfl⟩
      · exact (outputOf_eq hk).symm
      · rw [outputOf, hk]
        rfl
    · rcases h.members with hgone | ⟨m', -, hmade⟩
      · rw [hmembers, hgone]
      · rw [hmade, Table.get?_insert_same] at ht
        cases ht

omit [Std.TransOrd V] in
theorem Underway.others (h : n.Underway s e t n₁ s₁) (hd : n.members.Distinct) {x : TupleId}
    (hx : x ≠ t) : n₁.members.get? x = n.members.get? x := by
  have hxt : ¬(t == x) = true := by simpa using Ne.symm hx
  rcases h.members with h | ⟨m, -, h⟩
  · rw [h, hd.get?_erase, if_neg hxt]
  · rw [h, Table.get?_insert, if_neg hxt, hd.get?_erase, if_neg hxt]

omit [Std.TransOrd V] in
theorem Underway.members_of_record (h : n.Underway s e t n₁ s₁) (hd : n.members.Distinct)
    (hm : n₁.members.get? t = some m) : n₁.members = (n.members.erase t).insert t m := by
  rcases h.members with h | ⟨m', -, h⟩
  · rw [h, hd.get?_erase, if_pos BEq.rfl] at hm
    cases hm
  · rw [h, Table.get?_insert_same] at hm
    cases hm
    exact h

/-- What an event has its input contribute is recorded once the node has heard of it. -/
theorem Underway.record {h : Hearing} {ρ : TupleId → Row V} (hu : n.Underway s e t n₁ s₁)
    (hd : n.members.Distinct) (hb : n₁.Books (h.hear .left e t) ρ)
    (hm : n.contributed? e (s.arena.row t) = some m) : n₁.members.get? t = some m := by
  have hknown : (h.hear .left e t).known .left t := by
    cases e with
    | insert | update => exact Or.inl ⟨rfl, rfl⟩
    | retract => cases hm
  obtain ⟨m', hm'⟩ := (hb.known_iff t).mpr hknown
  rcases hu.members with herase | ⟨m'', hm'', hinserted⟩
  · rw [herase, hd.get?_erase, if_pos BEq.rfl] at hm'
    cases hm'
  · obtain rfl := Option.some.inj (hm.symm.trans hm'')
    rw [hinserted, Table.get?_insert_same]

end Events

section Spare

variable [Cell V] {n : GroupNode V} {k : Key V} {t : TupleId} {m : GroupMember V} {e : Event}

/-- The grouping without the accumulators it could use again. -/
def unspared (n : GroupNode V) : GroupNode V := { n with spare := [] }

theorem foldOut_unspared (n : GroupNode V) (m : GroupMember V) :
    n.unspared.foldOut m = (n.foldOut m).map unspared := by
  unfold foldOut
  rw [show n.unspared.groups = n.groups from rfl]
  cases n.groups.get? m.key with
  | none => rfl
  | some entry =>
      dsimp only
      cases retractAll entry.accumulators m.contributions <;> rfl

/-- Used accumulators that were reset are new ones. -/
theorem foldIn_unspared (hspare : ∀ as ∈ n.spare, as = n.kinds.map .new) (t : TupleId)
    (m : GroupMember V) : n.unspared.foldIn t m = (n.foldIn t m).map unspared := by
  have htake : n.unspared.takeAccumulators.1 = n.takeAccumulators.1 := by
    unfold takeAccumulators
    cases hs : n.spare with
    | nil => rfl
    | cons as spare =>
        change n.collectors.map _ = as
        rw [hspare as (by simp [hs]), kinds, List.map_map]
        rfl
  unfold foldIn
  rw [show n.unspared.groups = n.groups from rfl]
  cases n.groups.get? m.key with
  | none =>
      dsimp only
      rw [htake]
      cases accumulateAll n.takeAccumulators.1 m.contributions <;> rfl
  | some entry =>
      dsimp only
      cases accumulateAll entry.accumulators m.contributions <;> rfl

theorem refresh_unspared (n : GroupNode V) (k : Key V) :
    unspared <$> n.unspared.refresh k = unspared <$> n.refresh k := by
  unfold refresh
  rw [show n.unspared.groups = n.groups from rfl]
  cases n.groups.get? k with
  | none => rfl
  | some entry =>
      dsimp only
      split
      · cases entry.output <;> simp [unspared]
      · cases entry.output <;> simp [unspared, rowOf]

theorem refresh_twice_unspared (n : GroupNode V) (k l : Key V) :
    unspared <$> (n.unspared.refresh k >>= fun n' => n'.refresh l) =
      unspared <$> (n.refresh k >>= fun n' => n'.refresh l) := by
  have hthrough : ∀ x : Stage V (GroupNode V), unspared <$> (x >>= fun n' => n'.refresh l) =
      unspared <$> x >>= fun n' => unspared <$> n'.refresh l := by
    intro x
    rw [map_bind, bind_map_left]
    simp only [refresh_unspared]
  rw [hthrough, hthrough, refresh_unspared]

theorem add_unspared (hspare : ∀ as ∈ n.spare, as = n.kinds.map .new) (t : TupleId) :
    unspared <$> n.unspared.add t = unspared <$> n.add t := by
  unfold add
  rw [show n.unspared.member = n.member from rfl]
  simp only [map_bind, foldIn_unspared hspare, Stage.ofExcept_map_bind, refresh_unspared]

/-- It makes no difference to what a grouping does that it uses accumulators again. -/
theorem onEvent_unspared (hspare : ∀ as ∈ n.spare, as = n.kinds.map .new) (e : Event)
    (t : TupleId) : unspared <$> n.unspared.onEvent e t = unspared <$> n.onEvent e t := by
  have hforget : ({ n.unspared with members := n.members.erase t } : GroupNode V) =
      { n with members := n.members.erase t }.unspared := rfl
  unfold onEvent
  rw [show n.unspared.members = n.members from rfl]
  cases e with
  | insert => exact add_unspared hspare t
  | update =>
      cases n.members.get? t with
      | none => exact add_unspared hspare t
      | some p =>
          dsimp only
          rw [hforget, foldOut_unspared, Stage.ofExcept_map_bind, map_bind, map_bind]
          refine Stage.ofExcept_bind_congr fun n₁ hn₁ => ?_
          obtain ⟨-, -, -, -, -, -, hspare₁, halike⟩ := foldOut_ok hn₁
          have hspare₁ : ∀ as ∈ n₁.spare, as = n₁.kinds.map .new := by
            rw [hspare₁, halike.kinds]
            exact hspare
          rw [show n₁.unspared.member = n₁.member from rfl]
          simp only [map_bind, foldIn_unspared hspare₁, Stage.ofExcept_map_bind]
          refine bind_congr fun row => bind_congr fun m => bind_congr fun n₂ => ?_
          split
          · rw [pure_bind, pure_bind]
            exact refresh_unspared n₂ m.key
          · exact refresh_twice_unspared n₂ p.key m.key
  | retract =>
      cases n.members.get? t with
      | none => rfl
      | some p =>
          dsimp only
          rw [hforget, foldOut_unspared, Stage.ofExcept_map_bind]
          simp only [map_bind, refresh_unspared]

end Spare

variable [Cell V]

def reader : Reader V (GroupNode V) := ⟨fun n _ => n.onEvent, (· = .left)⟩

/-- Groupings that give up the accumulators they could use again, and make new ones instead. -/
def freshReader : Reader V (GroupNode V) := ⟨fun n _ e t => unspared <$> n.onEvent e t, (· = .left)⟩

/-- What holds after every event. -/
structure Faithful (keys : List (Row V → Except Fault V)) (collectors : List (Collector V))
    (c : Scene V (GroupNode V)) : Prop where
  recorded : ∀ t, (∃ m, c.node.members.get? t = some m) ↔ c.heard.known .left t
  current : ∀ t, c.heard.fresh .left t →
    ∃ m, c.node.members.get? t = some m ∧ (new keys collectors).member (c.row t) = .ok m
  group_iff : ∀ k, (∃ entry, c.node.groups.get? k = some entry) ↔
    ∃ t m, c.node.members.get? t = some m ∧ (m.key == k) = true
  key : ∀ k entry, c.node.groups.get? k = some entry → (Key.mk entry.keyCells == k) = true
  size : ∀ k entry, c.node.groups.get? k = some entry → entry.size = (c.node.membersWith k).card
  /-- New accumulators given the contributions of the members in any order show the same, if no sum
  leaves its range. -/
  results : ∀ k entry, c.node.groups.get? k = some entry →
    ∀ given : List (List (Contribution V)), (given : Multiset _) = c.node.contributionsWith k →
    (∃ as, feed (collectors.map (·.kind)) given = .ok as ∧
      List.Forall₂ (fun a b => a.finish.Same b.finish) entry.accumulators as) ∨
    ∃ f, feed (collectors.map (·.kind)) given = .error f ∧ SumFault f
  output : ∀ k entry, c.node.groups.get? k = some entry → ∃ out, entry.output = some out ∧
    c.Output out ∧ c.row out = entry.keyCells ++
      List.zipWith (fun collector a => collector.present a.finish) collectors entry.accumulators
  group : ∀ out, c.Output out → ∃ k, c.node.outputOf k = some out ∧
    ∀ l, c.node.outputOf l = some out → (k == l) = true

/-- What an event of an input does, which leads from one scene to the other: its record goes from the
group it was in to the group it is in, no other group is touched, and the output of a group that it
has emptied is taken back. -/
structure Transferred (c : Scene V (GroupNode V)) (t : TupleId) (c' : Scene V (GroupNode V)) :
    Prop where
  others : ∀ x, x ≠ t → c'.node.members.get? x = c.node.members.get? x
  moved : ∀ p m, c.node.members.get? t = some p → c'.node.members.get? t = some m →
    (p.key == m.key) = false →
      c.node.membersWith p.key = p ::ₘ c'.node.membersWith p.key ∧
        c'.node.membersWith m.key = m ::ₘ c.node.membersWith m.key
  untouched : ∀ k, (∀ m, c.node.members.get? t = some m ∨ c'.node.members.get? t = some m →
    (m.key == k) = false) → c'.node.groups.get? k = c.node.groups.get? k
  emptied : ∀ k entry, c.node.groups.get? k = some entry → c'.node.groups.get? k = none →
    ∃ out, entry.output = some out ∧ out ∈ c'.staging.queue.toList ∧
      c'.staging.arena.state out = Staging.afterRetract (c.staging.arena.state out)

variable [Std.TransOrd V] {keys : List (Row V → Except Fault V)} {collectors : List (Collector V)}
  {c : Scene V (GroupNode V)}

theorem keeps (keys : List (Row V → Except Fault V)) (collectors : List (Collector V)) :
    (reader (V := V)).Keeps outputIds
      (fun n h ρ => n.Books h ρ ∧ Alike (new keys collectors) n) (new keys collectors).Raises where
  frame hb hknown hfresh houts :=
    ⟨hb.1.frame (hknown .left) (hfresh .left) houts, hb.2⟩
  onEvent := by
    rintro n h s side e t hside ⟨hb, ha⟩ he hc
    obtain rfl : side = .left := hside
    refine (onEvent_ensures (W := fun _ => True) hb he hc fun _ _ => trivial).mono ?_ ?_
    · exact fun n' s' ⟨hw, hb', ha'⟩ => ⟨hw, hb', ha.trans ha'⟩
    · intro f hf
      have hraises := hf.raises
      unfold Raises at hraises ⊢
      rwa [ha.member, ha.collectors] at hraises

/-- What a grouping has come to in its life. -/
abbrev Kept (keys : List (Row V → Except Fault V)) (collectors : List (Collector V))
    (c : Scene V (GroupNode V)) : Prop :=
  c.Kept outputIds fun n h ρ => n.Books h ρ ∧ Alike (new keys collectors) n

theorem kept_of_lives (hc : reader.Lives (.new keys collectors) c) : Kept keys collectors c :=
  (keeps keys collectors).lives rfl
    (fun _ => ⟨books_new keys collectors fun _ => id, ⟨rfl, rfl⟩⟩) hc

theorem mem_outputIds_iff {n : GroupNode V} (hd : n.groups.Distinct) {out : TupleId} :
    out ∈ n.outputIds ↔ ∃ k, n.outputOf k = some out := by
  constructor
  · intro hout
    obtain ⟨entry, hentry, hout⟩ := List.mem_filterMap.mp hout
    obtain ⟨k, hk⟩ := hd.mem_values_iff.mp hentry
    exact ⟨k, (outputOf_eq hk).trans hout⟩
  · rintro ⟨k, hk⟩
    obtain ⟨entry, hk, hout⟩ := Option.bind_eq_some_iff.mp hk
    exact mem_outputIds hk hout

/-- New accumulators that are given what the members of a group contribute show what the group shows,
unless one of their sums leaves its range. -/
theorem Sound.results {n : GroupNode V} {stale : Key V → Prop} {ρ : TupleId → Row V} {k : Key V}
    {entry : GroupEntry V} {given : List (List (Contribution V))} (hs : n.Sound stale ρ)
    (hwhole : ∀ kind ∈ n.kinds, ¬kind.SumsDecimals) (hk : n.groups.get? k = some entry)
    (hgiven : (given : Multiset (List (Contribution V))) = n.contributionsWith k) :
    (∃ as, feed n.kinds given = .ok as ∧
      List.Forall₂ (fun a b => a.finish.Same b.finish) entry.accumulators as) ∨
    ∃ f, feed n.kinds given = .error f ∧ SumFault f := by
  have hreflects := (hs.entry k entry hk).reflects
  have hfit : ∀ cs ∈ given, AllFit cs n.kinds := by
    intro cs hcs
    have hmem : cs ∈ n.contributionsWith k := hgiven ▸ Multiset.mem_coe.mpr hcs
    obtain ⟨m, hm, rfl⟩ := Multiset.mem_map.mp hmem
    exact hs.fits m (Multiset.mem_filter.mp hm).1
  refine (feed_reflects hfit).imp ?_ id
  rintro ⟨as, has, hfed⟩
  have hkind : ∀ a ∈ entry.accumulators, ¬a.kind.SumsDecimals := fun a ha =>
    hwhole a.kind (hreflects.map_kind ▸ List.mem_map_of_mem ha)
  have hrefl : Multiset.Rel (List.Forall₂ Contribution.Same) (n.contributionsWith k) given :=
    hgiven ▸ Multiset.rel_refl_of_refl_on fun cs _ =>
      List.forall₂_same.mpr fun contribution _ => contribution.same_refl
  have halike := (List.forall₂_and_left _ _).mpr ⟨hkind, hreflects.alike hfed hrefl⟩
  exact ⟨as, has, halike.imp fun a b hab => hab.2 hab.1⟩

theorem Kept.faithful (hk : Kept keys collectors c)
    (hwhole : ∀ collector ∈ collectors, ¬collector.kind.SumsDecimals) :
    Faithful keys collectors c := by
  obtain ⟨hb, ha⟩ := hk.books
  have hs := hb.sound
  refine ⟨hb.known_iff, fun t ht => ?_, fun k => ⟨?_, ?_⟩, fun k entry h => (hs.entry k entry h).key,
    fun k entry h => (hs.entry k entry h).size, fun k entry h given hgiven => ?_,
    fun k entry h => ?_, fun out hout => ?_⟩
  · rw [← ha.member]
    exact hb.fresh t ht
  · rintro ⟨entry, hentry⟩
    have hpos := (hs.settled k entry hentry id).1
    rw [(hs.entry k entry hentry).size, Multiset.card_pos_iff_exists_mem] at hpos
    obtain ⟨m, hm⟩ := hpos
    obtain ⟨hm, hkey⟩ := Multiset.mem_filter.mp hm
    obtain ⟨t, ht⟩ := hs.members_distinct.mem_values_iff.mp (Multiset.mem_coe.mp hm)
    exact ⟨t, m, ht, hkey⟩
  · rintro ⟨t, m, ht, hkey⟩
    obtain ⟨entry, hentry⟩ := hs.entry_of_member ht
    exact ⟨entry, (Table.get?_congr c.node.groups hkey).symm.trans hentry⟩
  · have hkinds : collectors.map (·.kind) = c.node.kinds := ha.kinds.symm
    rw [hkinds]
    refine hs.results (fun kind hkind => ?_) h hgiven
    obtain ⟨collector, hcollector, rfl⟩ := List.mem_map.mp (hkinds ▸ hkind)
    exact hwhole collector hcollector
  · obtain ⟨-, out, hout, hrow⟩ := hs.settled k entry h id
    refine ⟨out, hout, hk.output_iff.mpr (mem_outputIds h hout), hrow.trans ?_⟩
    rw [ha.rowOf]
    rfl
  · obtain ⟨k, hkey⟩ := (mem_outputIds_iff hs.groups_distinct).mp (hk.output_iff.mp hout)
    refine ⟨k, hkey, fun l hl => ?_⟩
    obtain ⟨entry, hentry, hout⟩ := Option.bind_eq_some_iff.mp hkey
    obtain ⟨entry', hentry', hout'⟩ := Option.bind_eq_some_iff.mp hl
    exact output_inj hs.groups_distinct hk.tended.nodup hentry hentry' hout hout'

omit [Cell V] [Std.TransOrd V] in
/-- An active tuple that is taken back is to be taken back from those that saw it. -/
theorem eq_afterRetract {before after : TupleState} (hbefore : before.isActive)
    (hpending : after.isPending) (hactive : after.isActive = false)
    (hseen : after.isSeen = before.isSeen) : after = Staging.afterRetract before := by
  cases before <;> cases after <;>
    simp_all [TupleState.isActive, TupleState.isPending, TupleState.isSeen, Staging.afterRetract]

/-- A member whose record is replaced by one with another key goes from one group to another. -/
theorem membersWith_moved {n n' : GroupNode V} {t : TupleId} {p m : GroupMember V}
    (hd : n.members.Distinct) (hp : n.members.get? t = some p)
    (hm : n'.members = (n.members.erase t).insert t m) (hne : (p.key == m.key) = false) :
    n.membersWith p.key = p ::ₘ n'.membersWith p.key ∧
      n'.membersWith m.key = m ::ₘ n.membersWith m.key := by
  have hne' : (m.key == p.key) = false := Bool.eq_false_iff.mpr fun h => by
    rw [BEq.symm h] at hne
    cases hne
  let gone : GroupNode V := { n with members := n.members.erase t }
  have herase : ∀ k, n.membersWith k =
      if p.key == k then p ::ₘ gone.membersWith k else gone.membersWith k :=
    membersWith_erase hp rfl
  have hinsert : ∀ k, n'.membersWith k =
      if m.key == k then m ::ₘ gone.membersWith k else gone.membersWith k :=
    membersWith_insert ((hd.get?_erase t t).trans (if_pos BEq.rfl)) hm
  constructor
  · rw [herase, hinsert, BEq.rfl, hne']
    rfl
  · rw [herase, hinsert, BEq.rfl, hne]
    rfl

theorem Kept.transferred {e : Event} {t : TupleId} {n : GroupNode V} {s : Staging V}
    (hk : Kept keys collectors c) (ha : c.Admits .left e t)
    (hrun : (c.node.onEvent e t).run.run c.staging = (.ok n, s)) :
    Transferred c t (c.told .left e t n s) := by
  have hb := hk.books.1
  have hd := hb.sound.members_distinct
  have hc := hk.clear_inputs ha
  have hinsert : e = .insert → c.node.members.get? t = none := by
    rintro rfl
    exact Option.eq_none_iff_forall_ne_some.mpr fun m hm => ha.expects ((hb.known_iff t).mp ⟨m, hm⟩)
  have hu := (onEvent_underway hd hb.sound.groups_distinct hk.tended.valid hinsert).ok hrun
  obtain ⟨w, hb', -⟩ := ((keeps keys collectors).onEvent rfl hk.books ha.expects hc).ok hrun
  have hkept := w.kept hk.tended
  refine ⟨fun x hx => ?_, fun p m hp hm hne => ?_, fun k hk => ?_, fun k entry hentry hnone => ?_⟩
  · exact hu.others hd hx
  · exact membersWith_moved hd hp (hu.members_of_record hd hm) hne
  · exact hu.groups k fun m hm => hk m (hm.imp id (hu.record hd hb'))
  · have hnone : n.groups.get? k = none := hnone
    obtain ⟨-, out, hout, -⟩ := hb.sound.settled k entry hentry id
    have hmem := mem_outputIds hentry hout
    have hdrop : out ∉ n.outputIds := by
      intro hout'
      obtain ⟨l, hl⟩ := (mem_outputIds_iff hb'.sound.groups_distinct).mp hout'
      rcases hu.output l out hl with hl' | hnew
      · obtain ⟨entry', hentry', hout'⟩ := Option.bind_eq_some_iff.mp hl'
        have hkl := output_inj hb.sound.groups_distinct hk.tended.nodup hentry hentry' hout hout'
        rw [outputOf, ← Table.get?_congr n.groups hkl, hnone] at hl
        cases hl
      · exact hnew (hk.tended.occupied hmem)
    have hqueued := hkept.dropped out hmem hdrop
    refine ⟨out, hout, hqueued, eq_afterRetract (hk.tended.active out hmem)
      (hkept.tended.queue_pending out hqueued) ?_ (hkept.seen out (hk.tended.occupied hmem))⟩
    exact Bool.eq_false_iff.mpr fun hactive => hdrop (hkept.tended.backed out hqueued hactive)

theorem Kept.fresh (hk : Kept keys collectors c) (e : Event) (t : TupleId) :
    freshReader.onEvent c.node.unspared .left e t = unspared <$> c.node.onEvent e t := by
  obtain ⟨hb, -⟩ := hk.books
  exact onEvent_unspared hb.sound.spare e t

/-- A grouping that made new accumulators for every new group would live the same life. -/
theorem fresh_of_lives (hc : reader.Lives (.new keys collectors) c) :
    freshReader.Lives (.new keys collectors) (c.withNode c.node.unspared) := by
  have hlives := hc.simulates freshReader (.new keys collectors)
    (fun n m => m = n.unspared) (fun _ => id) rfl ?_
  · obtain ⟨m, rfl, hm⟩ := hlives
    exact hm
  · rintro c side e t n s - hc hside ha rfl hrun
    obtain rfl : side = .left := hside
    have hrun : (c.node.onEvent e t).run.run c.staging = (.ok n, s) := hrun
    refine ⟨n.unspared, rfl, ?_⟩
    rw [(kept_of_lives hc).fresh e t, ← bind_pure_comp, Outcome.run_bind, hrun]
    rfl

/-- A grouping without sums of decimals is faithful to the records of its inputs after every event,
and it would live the same if it made new accumulators for every new group. Only a user function, a
sum that leaves its range or a contribution that its collector is not for stops it. -/
theorem faithful_of_lives (hwhole : ∀ collector ∈ collectors, ¬collector.kind.SumsDecimals)
    (hc : reader.Lives (.new keys collectors) c) :
    Faithful keys collectors c ∧
      freshReader.Lives (.new keys collectors) (c.withNode c.node.unspared) ∧
      ∀ e t, c.Admits .left e t →
        freshReader.onEvent c.node.unspared .left e t = unspared <$> c.node.onEvent e t ∧
        ((∃ n s, (c.node.onEvent e t).run.run c.staging = (.ok n, s) ∧
            Transferred c t (c.told .left e t n s)) ∨
          ∃ f s, (c.node.onEvent e t).run.run c.staging = (.error f, s) ∧
            (new keys collectors).Raises f) := by
  have hk := kept_of_lives hc
  refine ⟨hk.faithful hwhole, fresh_of_lives hc, fun e t ha => ⟨hk.fresh e t, ?_⟩⟩
  refine (hk.proceeds (keeps keys collectors) rfl ha).imp ?_ id
  exact fun ⟨n, s, hrun⟩ => ⟨n, s, hrun, hk.transferred ha hrun⟩

/-- A coin that is exchanged for one of another worth changes its group. -/
theorem faithful_of_lives_coins : ∃ c,
    reader.Lives (.new [Coin.worthOf.run] [Coin.number, Coin.gathered .min]) c ∧ c.UpToDate ∧
      c.heard.known .left 0 ∧ c.row 0 = [⟨7, false⟩] ∧
      Faithful [Coin.worthOf.run] [Coin.number, Coin.gathered .min] c := by
  obtain ⟨c, log, hc, hl, hfacts⟩ := Scene.exists_of_play? kept_of_lives
    (valid_coinArena [⟨5, true⟩])
    (by simp [Cue.Heard, reader] : ∀ cue ∈ ([.tell .left .insert 0, .replace 0 [⟨7, false⟩],
      .tell .left .update 0] : List (Cue Coin)), cue.Heard reader)
    (by decide +kernel : ((Scene.born (.new [Coin.worthOf.run] [Coin.number, Coin.gathered .min])
      (coinArena [⟨5, true⟩])).play? reader outputIds [.tell .left .insert 0,
        .replace 0 [⟨7, false⟩], .tell .left .update 0]).any fun p =>
          (∀ x ∈ p.2.known, x ∈ p.2.fresh) ∧ (.left, 0) ∈ p.2.known ∧ p.1.row 0 = [⟨7, false⟩])
  obtain ⟨hall, hleft, hrow⟩ := of_decide_eq_true hfacts
  have hwhole : ∀ collector ∈ [Coin.number, Coin.gathered .min], ¬collector.kind.SumsDecimals := by
    simp [Coin.number, Coin.gathered, CollectorKind.SumsDecimals]
  exact ⟨c, hc, hl.upToDate hall, (hl.known_iff .left 0).mpr hleft, hrow,
    (faithful_of_lives hwhole hc).1⟩

end ConstraintScoring.GroupNode
