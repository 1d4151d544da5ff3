import ConstraintScoring.Proofs.Collector.Row
import ConstraintScoring.Proofs.Node.Hearing
import ConstraintScoring.Proofs.Table.Distinct

/-!
# Groups

A group has a member for each input with its key, and its accumulators reflect what these members
contributed. If no collector ever gives decimal places to a running sum, these sums have none either.
A key is stale while the members of its group have changed and its output has not been looked at.
-/

namespace ConstraintScoring.GroupNode

variable {V : Type} [Cell V]

def kinds (n : GroupNode V) : List CollectorKind := n.collectors.map (·.kind)

/-- The members of the group with a key. -/
def membersWith (n : GroupNode V) (k : Key V) : Multiset (GroupMember V) :=
  (n.members.values : Multiset (GroupMember V)).filter fun m => (m.key == k) = true

def contributionsWith (n : GroupNode V) (k : Key V) : Multiset (List (Contribution V)) :=
  (n.membersWith k).map (·.contributions)

def GivesWhole (n : GroupNode V) : Prop := ∀ c ∈ n.collectors, c.GivesWhole

variable [Std.TransOrd V]

structure Entry (n : GroupNode V) (k : Key V) (entry : GroupEntry V) : Prop where
  size : entry.size = (n.membersWith k).card
  reflects : AllReflect entry.accumulators n.kinds (n.contributionsWith k)
  key : (Key.mk entry.keyCells == k) = true
  whole : n.GivesWhole → AllHold Accumulator.WholeSum entry.accumulators (n.contributionsWith k)

structure Sound (n : GroupNode V) (stale : Key V → Prop) (ρ : TupleId → Row V) : Prop where
  members_distinct : n.members.Distinct
  groups_distinct : n.groups.Distinct
  origin : ∀ m ∈ n.members.values, ∃ row, n.member row = .ok m
  fits : ∀ m ∈ n.members.values, AllFit m.contributions n.kinds
  spare : ∀ as ∈ n.spare, as = n.kinds.map .new
  entry : ∀ k entry, n.groups.get? k = some entry → n.Entry k entry
  absent : ∀ k, n.groups.get? k = none → n.membersWith k = 0
  settled : ∀ k entry, n.groups.get? k = some entry → ¬stale k →
    0 < entry.size ∧ ∃ out, entry.output = some out ∧ ρ out = n.rowOf entry

structure Books (n : GroupNode V) (h : Hearing) (ρ : TupleId → Row V) : Prop where
  known_iff : ∀ t, (∃ m, n.members.get? t = some m) ↔ h.known .left t
  fresh : ∀ t, h.fresh .left t → ∃ m, n.members.get? t = some m ∧ n.member (ρ t) = .ok m
  sound : n.Sound (fun _ => False) ρ

theorem books_new (keys : List (Row V → Except Fault V)) (collectors : List (Collector V)) {h : Hearing}
    {ρ : TupleId → Row V} (hknown : ∀ t, ¬h.known .left t) :
    Books ⟨keys, collectors, .empty, .empty, []⟩ h ρ := by
  refine ⟨fun t => iff_of_false (fun ⟨_, hx⟩ => by simp at hx) (hknown t),
    fun t ht => absurd (h.known_of_fresh .left t ht) (hknown t),
    ⟨Table.distinct_empty, Table.distinct_empty, ?_, ?_, ?_, by simp, fun _ _ => rfl, by simp⟩⟩
  · simp [Table.values, Table.empty]
  · simp [Table.values, Table.empty]
  · simp

def outputIds (n : GroupNode V) : List TupleId := n.groups.values.filterMap (·.output)

/-- A grouping is stopped by a key, by a collector, by a sum that leaves its range, or by a
contribution of a kind that the collector is not for. -/
def Raises (n : GroupNode V) (f : Fault) : Prop :=
  (∃ row, n.member row = .error f) ∨ SumFault f ∨
    ∃ c ∈ n.collectors, ∃ row x, c.contribution.run row = .ok x ∧ ¬x.Fits c.kind

/-- The row has no key or contributes nothing, or something that a collector is not for. -/
def FailsOn (n : GroupNode V) (row : Row V) (f : Fault) : Prop :=
  n.member row = .error f ∨ ∃ m, n.member row = .ok m ∧ ¬AllFit m.contributions n.kinds

/-- What stops a grouping when it hears of an event of a tuple with the row. -/
def Trips (n : GroupNode V) (e : Event) (row : Row V) (f : Fault) : Prop :=
  SumFault f ∨ e ≠ .retract ∧ n.FailsOn row f

section Members

variable {n n' : GroupNode V} {k l : Key V} {t : TupleId} {m : GroupMember V} {row : Row V}

theorem membersWith_congr (n : GroupNode V) (h : (k == l) = true) :
    n.membersWith k = n.membersWith l := by
  unfold membersWith
  refine Multiset.filter_congr fun m _ => ?_
  exact ⟨fun hm => BEq.trans hm h, fun hm => BEq.trans hm (BEq.symm h)⟩

omit [Std.TransOrd V] in
theorem filter_key_cons (k : Key V) (m : GroupMember V) (bag : Multiset (GroupMember V)) :
    (m ::ₘ bag).filter (fun x => (x.key == k) = true) =
      if m.key == k then m ::ₘ bag.filter fun x => (x.key == k) = true
      else bag.filter fun x => (x.key == k) = true := by
  split
  · rename_i hk
    exact Multiset.filter_cons_of_pos _ hk
  · rename_i hk
    exact Multiset.filter_cons_of_neg _ hk

omit [Std.TransOrd V] in
theorem membersWith_insert (hn : n.members.get? t = none)
    (hm : n'.members = n.members.insert t m) (k : Key V) :
    n'.membersWith k = if m.key == k then m ::ₘ n.membersWith k else n.membersWith k := by
  have hvalues : (n'.members.values : Multiset (GroupMember V)) = m ::ₘ n.members.values := by
    rw [hm, Multiset.cons_coe]
    refine Multiset.coe_eq_coe.mpr ?_
    rw [Table.values_insert_of_none m hn]
    exact List.perm_append_singleton m _
  unfold membersWith
  rw [hvalues]
  exact filter_key_cons k m _

omit [Std.TransOrd V] in
theorem membersWith_erase (hn : n.members.get? t = some m)
    (hm : n'.members = n.members.erase t) (k : Key V) :
    n.membersWith k = if m.key == k then m ::ₘ n'.membersWith k else n'.membersWith k := by
  have hvalues : (n.members.values : Multiset (GroupMember V)) = m ::ₘ n'.members.values := by
    rw [hm, Multiset.cons_coe]
    exact Multiset.coe_eq_coe.mpr (Table.values_erase_of_some hn)
  unfold membersWith
  rw [hvalues]
  exact filter_key_cons k m _

omit [Cell V] [Std.TransOrd V] in
theorem member_length (hm : n.member row = .ok m) :
    m.key.cells.length = n.keys.length ∧ m.contributions.length = n.kinds.length := by
  obtain ⟨cells, hk, hm⟩ := Outcome.bind_eq_ok.mp hm
  obtain ⟨contributions, hc, hm⟩ := Outcome.bind_eq_ok.mp hm
  obtain rfl := Except.ok.inj hm
  rw [kinds, List.length_map]
  exact ⟨(Outcome.mapM_eq_ok.mp hk).length_eq.symm, (Outcome.mapM_eq_ok.mp hc).length_eq.symm⟩

omit [Cell V] [Std.TransOrd V] in
/-- Either a row contributes to each collector what it is for, or one collector is ill-made. -/
theorem contributions_fit (hm : n.member row = .ok m) : AllFit m.contributions n.kinds ∨
    ∃ c ∈ n.collectors, ∃ row x, c.contribution.run row = .ok x ∧ ¬x.Fits c.kind := by
  obtain ⟨cells, -, hm⟩ := Outcome.bind_eq_ok.mp hm
  obtain ⟨contributions, hc, hm⟩ := Outcome.bind_eq_ok.mp hm
  obtain rfl := Except.ok.inj hm
  by_cases hbad : ∃ c ∈ n.collectors, ∃ row x, c.contribution.run row = .ok x ∧ ¬x.Fits c.kind
  · exact Or.inr hbad
  · have hgood : ∀ c ∈ n.collectors, ∀ row x, c.contribution.run row = .ok x → x.Fits c.kind :=
      fun c hc row x hx => by_contra fun hn => hbad ⟨c, hc, row, x, hx, hn⟩
    have hall := (List.forall₂_and_left _ _).mpr ⟨fun c (hc : c ∈ n.collectors) => hc,
      Outcome.mapM_eq_ok.mp hc⟩
    refine Or.inl ?_
    unfold AllFit kinds
    rw [List.forall₂_map_right_iff]
    exact hall.flip.imp fun x c hcx => hgood c hcx.1 row x hcx.2

omit [Cell V] [Std.TransOrd V] in
/-- A row contributes decimals without places if the collectors that sum decimals give no others. -/
theorem contributions_whole (hn : n.GivesWhole) (hm : n.member row = .ok m)
    (hfit : AllFit m.contributions n.kinds) : ∀ x ∈ m.contributions, x.Whole := by
  obtain ⟨cells, -, hm⟩ := Outcome.bind_eq_ok.mp hm
  obtain ⟨contributions, hc, hm⟩ := Outcome.bind_eq_ok.mp hm
  obtain rfl := Except.ok.inj hm
  unfold AllFit kinds at hfit
  rw [List.forall₂_map_right_iff] at hfit
  have hall := (List.forall₂_and_left _ _).mpr ⟨fun c (hc : c ∈ n.collectors) => hc,
    Outcome.mapM_eq_ok.mp hc⟩
  intro x hx
  obtain ⟨i, hi, rfl⟩ := List.mem_iff_getElem.mp hx
  have hlen := hfit.length_eq
  obtain ⟨hmem, hrun⟩ := hall.get (hlen ▸ hi) hi
  have hfits := hfit.get hi (hlen ▸ hi)
  simp only [List.get_eq_getElem] at hmem hrun hfits
  cases hx : contributions[i] with
  | decimal d =>
      rw [hx] at hrun hfits
      exact hn _ hmem hfits.sumsDecimals row d hrun
  | _ => trivial

omit [Cell V] [Std.TransOrd V] in
theorem Trips.raises {e : Event} {f : Fault} (h : n.Trips e row f) : n.Raises f := by
  rcases h with hsum | ⟨-, hmember | ⟨m, hm, hmisfit⟩⟩
  · exact Or.inr (Or.inl hsum)
  · exact Or.inl ⟨row, hmember⟩
  · exact Or.inr (Or.inr ((contributions_fit hm).resolve_left hmisfit))

end Members

section Fold

variable {n n' : GroupNode V} {stale : Key V → Prop} {ρ ρ' : TupleId → Row V} {t : TupleId}
  {m : GroupMember V} {k : Key V} {entry entry' : GroupEntry V} {f : Fault}

/-- A node that differs in the books it keeps only. -/
structure Alike (n n' : GroupNode V) : Prop where
  keys : n'.keys = n.keys
  collectors : n'.collectors = n.collectors

omit [Cell V] [Std.TransOrd V] in
theorem Alike.trans {n'' : GroupNode V} (h : Alike n n') (h' : Alike n' n'') : Alike n n'' :=
  ⟨h'.keys.trans h.keys, h'.collectors.trans h.collectors⟩

omit [Cell V] [Std.TransOrd V] in
theorem Alike.kinds (h : Alike n n') : n'.kinds = n.kinds := by
  unfold GroupNode.kinds
  rw [h.collectors]

omit [Cell V] [Std.TransOrd V] in
theorem Alike.rowOf (h : Alike n n') (entry : GroupEntry V) : n'.rowOf entry = n.rowOf entry := by
  unfold GroupNode.rowOf
  rw [h.collectors]

omit [Cell V] [Std.TransOrd V] in
theorem Alike.member (h : Alike n n') : n'.member = n.member := by
  unfold GroupNode.member
  rw [h.keys, h.collectors]

omit [Cell V] [Std.TransOrd V] in
theorem Alike.givesWhole (h : Alike n n') : n'.GivesWhole = n.GivesWhole := by
  unfold GroupNode.GivesWhole
  rw [h.collectors]

theorem Entry.congr (he : n.Entry k entry) (ha : Alike n n')
    (hmembers : n'.membersWith k = n.membersWith k) : n'.Entry k entry := by
  have hcontributions : n'.contributionsWith k = n.contributionsWith k :=
    congrArg (Multiset.map _) hmembers
  refine ⟨by rw [hmembers, he.size], ?_, he.key, ?_⟩
  · rw [ha.kinds, hcontributions]
    exact he.reflects
  · rw [ha.givesWhole, hcontributions]
    exact he.whole

/-- An entry is that of all equal keys. -/
theorem Entry.of_beq {l : Key V} (he : n.Entry k entry) (hkl : (k == l) = true) :
    n.Entry l entry := by
  have hcontributions : n.contributionsWith l = n.contributionsWith k :=
    congrArg (Multiset.map _) (n.membersWith_congr hkl).symm
  refine ⟨by rw [he.size, n.membersWith_congr hkl], ?_, BEq.trans he.key hkl, ?_⟩
  · rw [hcontributions]
    exact he.reflects
  · rw [hcontributions]
    exact he.whole

/-- The members of one group change, and its entry with them; its output is to be looked at. -/
theorem Sound.refold (h : n.Sound stale ρ) (ha : Alike n n')
    (hmd : n'.members.Distinct) (hmembers : ∀ m' ∈ n'.members.values, m' = m ∨ m' ∈ n.members.values)
    (hm : (∃ row, n.member row = .ok m) ∧ AllFit m.contributions n.kinds)
    (hspare : ∀ as ∈ n'.spare, as = n.kinds.map .new)
    (hgroups : n'.groups = n.groups.insert m.key entry')
    (hother : ∀ l, (m.key == l) = false → n'.membersWith l = n.membersWith l)
    (hentry : n'.Entry m.key entry') :
    n'.Sound (fun l => (m.key == l) = true ∨ stale l) ρ := by
  have hget : ∀ l, n'.groups.get? l = if m.key == l then some entry' else n.groups.get? l := by
    intro l
    rw [hgroups, Table.get?_insert]
  refine ⟨hmd, hgroups ▸ h.groups_distinct.insert _ _, ?_, ?_, ?_, ?_, ?_, ?_⟩
  · intro m' hm'
    rw [ha.member]
    rcases hmembers m' hm' with rfl | hm'
    · exact hm.1
    · exact h.origin m' hm'
  · intro m' hm'
    rw [ha.kinds]
    rcases hmembers m' hm' with rfl | hm'
    · exact hm.2
    · exact h.fits m' hm'
  · rw [ha.kinds]
    exact hspare
  · intro l e hl
    rw [hget] at hl
    split at hl
    · rename_i hkl
      obtain rfl := Option.some.inj hl
      exact hentry.of_beq hkl
    · rename_i hkl
      exact (h.entry l e hl).congr ha (hother l (by simpa using hkl))
  · intro l hl
    rw [hget] at hl
    split at hl
    · cases hl
    · rename_i hkl
      rw [hother l (by simpa using hkl)]
      exact h.absent l hl
  · intro l e hl hstale
    rw [hget] at hl
    split at hl
    · rename_i hkl
      exact absurd (Or.inl hkl) hstale
    · obtain ⟨hpos, out, hout, hrow⟩ := h.settled l e hl fun hs => hstale (Or.inr hs)
      exact ⟨hpos, out, hout, by rw [hrow, ha.rowOf]⟩

omit [Cell V] [Std.TransOrd V] in
theorem mem_values_insert {t : TupleId} {m m' : GroupMember V} {T : Table TupleId (GroupMember V)}
    (h : m' ∈ (T.insert t m).values) : m' = m ∨ m' ∈ T.values := by
  rcases List.mem_cons.mp ((T.values_insert t m).mem_iff.mp h) with h | h
  · exact Or.inl h
  · refine Or.inr ((T.values_perm t).mem_iff.mpr (List.mem_append_right _ h))

theorem takeAccumulators_spec (h : n.Sound stale ρ) :
    n.takeAccumulators.1 = n.kinds.map .new ∧
      ∀ as ∈ n.takeAccumulators.2, as = n.kinds.map .new := by
  unfold takeAccumulators
  cases hs : n.spare with
  | nil => exact ⟨by simp [kinds], by simp⟩
  | cons as spare =>
      exact ⟨h.spare as (by simp [hs]), fun as' has => h.spare as' (by simp [hs, has])⟩

/-- What adding or taking away a member leads to. -/
structure Folded (n : GroupNode V) (stale : Key V → Prop) (ρ : TupleId → Row V)
    (m : GroupMember V) (members : Table TupleId (GroupMember V)) (n' : GroupNode V) : Prop where
  sound : n'.Sound (fun l => (m.key == l) = true ∨ stale l) ρ
  outputs : n.outputIds.Perm n'.outputIds
  alike : Alike n n'
  members : n'.members = members

omit [Std.TransOrd V] in
/-- An entry replaced by one with the same output. -/
theorem outputIds_refold (hout : entry'.output = ((n.groups.get? k).bind (·.output)))
    (hgroups : n'.groups = n.groups.insert k entry') : n.outputIds.Perm n'.outputIds := by
  have hbefore := (n.groups.values_perm k).filterMap (·.output)
  have hafter := (n.groups.values_insert k entry').filterMap (·.output)
  unfold outputIds
  rw [hgroups]
  refine hbefore.trans (List.Perm.trans ?_ hafter.symm)
  cases hk : n.groups.get? k with
  | none => simp [hk] at hout; simp [hout]
  | some e =>
      have hout : entry'.output = e.output := by simpa [hk] using hout
      cases he : e.output <;> simp [hout, he]

theorem foldIn_folded (h : n.Sound stale ρ) {row : Row V} (ht : n.members.get? t = none)
    (hm : n.member row = .ok m) (hok : n.foldIn t m = .ok n') :
    n.Folded stale ρ m (n.members.insert t m) n' := by
  obtain ⟨-, hlen⟩ := member_length hm
  obtain ⟨hnew, hspare⟩ := takeAccumulators_spec h
  have hkeep : ∀ {n' : GroupNode V}, n'.members = n.members.insert t m →
      ∀ l, (m.key == l) = false → n'.membersWith l = n.membersWith l := fun hmem l hl => by
    rw [membersWith_insert ht hmem, hl]
    rfl
  have hself : ∀ {n' : GroupNode V}, n'.members = n.members.insert t m →
      n'.membersWith m.key = m ::ₘ n.membersWith m.key := fun hmem => by
    rw [membersWith_insert ht hmem, BEq.rfl]
    rfl
  unfold foldIn at hok
  cases hk : n.groups.get? m.key with
  | some entry =>
      simp only [hk] at hok
      obtain ⟨as, has, hok⟩ := Outcome.bind_eq_ok.mp hok
      obtain rfl := Except.ok.inj hok
      have he := h.entry m.key entry hk
      obtain ⟨hreflect, hfit⟩ := accumulateAll_reflects he.reflects hlen has
      refine ⟨h.refold (m := m) ⟨rfl, rfl⟩ (h.members_distinct.insert t m)
        (fun _ => mem_values_insert) ⟨⟨row, hm⟩, hfit⟩ h.spare rfl (hkeep rfl)
        ⟨?_, ?_, he.key, fun hw => ?_⟩,
        outputIds_refold (k := m.key) (by simp [hk]) rfl, ⟨rfl, rfl⟩, rfl⟩
      · rw [hself rfl, Multiset.card_cons, he.size]
      · unfold contributionsWith
        rw [hself rfl, Multiset.map_cons]
        exact hreflect
      · unfold contributionsWith
        rw [hself rfl, Multiset.map_cons]
        exact accumulateAll_wholeSums (he.whole hw) (hlen.trans he.reflects.length.symm)
          (contributions_whole hw hm hfit) has
  | none =>
      simp only [hk] at hok
      obtain ⟨as, has, hok⟩ := Outcome.bind_eq_ok.mp hok
      obtain rfl := Except.ok.inj hok
      have hzero := h.absent m.key hk
      rw [hnew] at has
      obtain ⟨hreflect, hfit⟩ := accumulateAll_reflects (allReflect_new n.kinds) hlen has
      refine ⟨h.refold (m := m) ⟨rfl, rfl⟩ (h.members_distinct.insert t m)
        (fun _ => mem_values_insert) ⟨⟨row, hm⟩, hfit⟩ hspare rfl (hkeep rfl)
        ⟨?_, ?_, BEq.rfl, fun hw => ?_⟩,
        outputIds_refold (k := m.key) (by simp [hk]) rfl, ⟨rfl, rfl⟩, rfl⟩
      · rw [hself rfl, hzero, Multiset.card_cons]
        rfl
      · unfold contributionsWith
        rw [hself rfl, hzero, Multiset.map_cons]
        exact hreflect
      · unfold contributionsWith
        rw [hself rfl, hzero, Multiset.map_cons]
        exact accumulateAll_wholeSums (allHold_new n.kinds) (hlen.trans (List.length_map _).symm)
          (contributions_whole hw hm hfit) has

theorem foldIn_fault (h : n.Sound stale ρ) (hfit : AllFit m.contributions n.kinds)
    (herror : n.foldIn t m = .error f) : SumFault f := by
  unfold foldIn at herror
  cases hk : n.groups.get? m.key with
  | some entry =>
      simp only [hk] at herror
      rcases Outcome.bind_eq_error.mp herror with herror | ⟨_, -, herror⟩
      · exact accumulateAll_fault (h.entry m.key entry hk).reflects hfit herror
      · cases herror
  | none =>
      simp only [hk] at herror
      rcases Outcome.bind_eq_error.mp herror with herror | ⟨_, -, herror⟩
      · rw [(takeAccumulators_spec h).1] at herror
        exact accumulateAll_fault (allReflect_new n.kinds) hfit herror
      · cases herror

/-- A member that is added is stopped by its contributions or by a sum. -/
theorem foldIn_trips {e : Event} {row : Row V} (h : n.Sound stale ρ) (hm : n.member row = .ok m)
    (he : e ≠ .retract) (herror : n.foldIn t m = .error f) : n.Trips e row f := by
  by_cases hfit : AllFit m.contributions n.kinds
  · exact Or.inl (foldIn_fault h hfit herror)
  · exact Or.inr ⟨he, Or.inr ⟨m, hm, hfit⟩⟩

/-- The group of a member is there. -/
theorem Sound.entry_of_member (h : n.Sound stale ρ) (ht : n.members.get? t = some m) :
    ∃ entry, n.groups.get? m.key = some entry := by
  by_contra hne
  have hnone : n.groups.get? m.key = none := by
    cases hk : n.groups.get? m.key with
    | none => rfl
    | some entry => exact absurd ⟨entry, hk⟩ hne
  have hmem : m ∈ n.membersWith m.key :=
    Multiset.mem_filter.mpr ⟨Table.mem_values_of_get? ht, BEq.rfl⟩
  rw [h.absent m.key hnone] at hmem
  exact Multiset.notMem_zero m hmem

theorem foldOut_folded (h : n.Sound stale ρ) (ht : n.members.get? t = some m)
    (hok : { n with members := n.members.erase t }.foldOut m = .ok n') :
    n.Folded stale ρ m (n.members.erase t) n' := by
  obtain ⟨entry, hk⟩ := h.entry_of_member ht
  have he := h.entry m.key entry hk
  have hmem := Table.mem_values_of_get? ht
  have hlen := (h.fits m hmem).length_eq
  unfold foldOut at hok
  simp only [hk] at hok
  obtain ⟨as, has, hok⟩ := Outcome.bind_eq_ok.mp hok
  have hn' := (Except.ok.inj hok).symm
  have hmembers : n'.members = n.members.erase t := by rw [hn']
  have hgroups : n'.groups = n.groups.insert m.key
      { entry with accumulators := as, size := entry.size - 1 } := by rw [hn']
  have halike : Alike n n' := by
    rw [hn']
    exact ⟨rfl, rfl⟩
  have hsplit : n.membersWith m.key = m ::ₘ n'.membersWith m.key := by
    rw [membersWith_erase ht hmembers, BEq.rfl]
    rfl
  refine ⟨h.refold (m := m) halike (hmembers ▸ h.members_distinct.erase t)
    (fun m' hm' => Or.inr ?_) ⟨h.origin m hmem, h.fits m hmem⟩ (by rw [hn']; exact h.spare) hgroups
    (fun l hl => ?_) ⟨?_, ?_, he.key, fun hw => ?_⟩, outputIds_refold (by simp [hk]) hgroups,
    halike, hmembers⟩
  · rw [hmembers] at hm'
    exact (n.members.values_perm t).mem_iff.mpr (List.mem_append_right _ hm')
  · rw [membersWith_erase ht hmembers l, hl]
    rfl
  · change entry.size - 1 = _
    rw [he.size, hsplit, Multiset.card_cons]
    rfl
  · have hreflects := he.reflects
    unfold contributionsWith at hreflects ⊢
    rw [hsplit, Multiset.map_cons] at hreflects
    rw [halike.kinds]
    exact retractAll_reflects hreflects hlen has
  · have hw : n.GivesWhole := halike.givesWhole ▸ hw
    have hwhole := he.whole hw
    obtain ⟨row, hrow⟩ := h.origin m hmem
    unfold contributionsWith at hwhole ⊢
    rw [hsplit, Multiset.map_cons] at hwhole
    exact retractAll_wholeSums hwhole (hlen.trans he.reflects.length.symm)
      (contributions_whole hw hrow (h.fits m hmem)) has

theorem foldOut_fault (h : n.Sound stale ρ) (ht : n.members.get? t = some m)
    (herror : { n with members := n.members.erase t }.foldOut m = .error f) : SumFault f := by
  obtain ⟨entry, hk⟩ := h.entry_of_member ht
  unfold foldOut at herror
  simp only [hk] at herror
  rcases Outcome.bind_eq_error.mp herror with herror | ⟨_, -, herror⟩
  · exact retractAll_fault (h.entry m.key entry hk).reflects
      (h.fits m (Table.mem_values_of_get? ht)) herror
  · cases herror

end Fold

section Refresh

variable {n n' : GroupNode V} {stale stale' : Key V → Prop} {ρ ρ' : TupleId → Row V}
  {k l : Key V} {entry entry' : GroupEntry V} {s : Staging V} {I : TupleId → Prop}
  {W : Row V → Prop} {R : Fault → Prop} {out : TupleId}

omit [Std.TransOrd V] in
theorem mem_outputIds (hk : n.groups.get? k = some entry) (hout : entry.output = some out) :
    out ∈ n.outputIds :=
  List.mem_filterMap.mpr ⟨entry, Table.mem_values_of_get? hk, hout⟩

/-- Different groups have different outputs. -/
theorem output_inj (hd : n.groups.Distinct) (hn : n.outputIds.Nodup)
    (hk : n.groups.get? k = some entry) (hl : n.groups.get? l = some entry')
    (hout : entry.output = some out) (hout' : entry'.output = some out) : (k == l) = true := by
  by_contra hne
  have hperm := (Table.values_erase_of_some hk).filterMap (·.output)
  rw [List.filterMap_cons_some hout] at hperm
  have hmem : out ∈ (n.groups.erase k).values.filterMap (·.output) := by
    refine List.mem_filterMap.mpr ⟨entry', Table.mem_values_of_get? (k := l) ?_, hout'⟩
    rw [hd.get?_erase, if_neg hne, hl]
  exact (List.nodup_cons.mp (hperm.nodup_iff.mp hn)).1 hmem

/-- A group that has a member shows a cell for each key and for each collector. -/
theorem Sound.length_rowOf (h : n.Sound stale ρ) (hk : n.groups.get? k = some entry)
    (hpos : entry.size ≠ 0) : (n.rowOf entry).length = n.keys.length + n.collectors.length := by
  have he := h.entry k entry hk
  have hcard : (n.membersWith k).card ≠ 0 := he.size ▸ hpos
  obtain ⟨m, hm⟩ := Multiset.exists_mem_of_ne_zero fun h0 => hcard (Multiset.card_eq_zero.mpr h0)
  obtain ⟨hm, hmk⟩ := Multiset.mem_filter.mp hm
  have hcells : entry.keyCells.length = n.keys.length := by
    obtain ⟨row, hrow⟩ := h.origin m hm
    rw [Cell.sameAll_length he.key, ← (member_length hrow).1]
    exact (Cell.sameAll_length hmk).symm
  have haccs := he.reflects.length
  unfold kinds at haccs
  rw [List.length_map] at haccs
  unfold rowOf
  rw [List.length_append, List.length_zipWith, hcells, haccs, Nat.min_self]

/-- The output of one group is brought in line, and the outputs of all others stay. -/
theorem Sound.resettle (h : n.Sound stale ρ) (ha : Alike n n') (hmembers : n'.members = n.members)
    (hd : n'.groups.Distinct) (hspare : ∀ as ∈ n'.spare, as = n.kinds.map .new)
    (hother : ∀ l, (k == l) = false → n'.groups.get? l = n.groups.get? l)
    (hrows : ∀ l e out, (k == l) = false → n.groups.get? l = some e → e.output = some out →
      ρ' out = ρ out)
    (hsome : ∀ l e, (k == l) = true → n'.groups.get? l = some e → n.Entry l e ∧ 0 < e.size ∧
      ∃ out, e.output = some out ∧ ρ' out = n.rowOf e)
    (hnone : ∀ l, (k == l) = true → n'.groups.get? l = none → n.membersWith l = 0)
    (hstale : ∀ l, stale l → (k == l) = false → stale' l) : n'.Sound stale' ρ' := by
  have hwith : ∀ l, n'.membersWith l = n.membersWith l := fun l => by
    unfold membersWith
    rw [hmembers]
  refine ⟨hmembers ▸ h.members_distinct, hd, ?_, ?_, ?_, fun l e hl => ?_, fun l hl => ?_,
    fun l e hl hs => ?_⟩
  · rw [hmembers, ha.member]
    exact h.origin
  · rw [hmembers, ha.kinds]
    exact h.fits
  · rw [ha.kinds]
    exact hspare
  · cases hkl : k == l with
    | true => exact (hsome l e hkl hl).1.congr ha (hwith l)
    | false => exact (h.entry l e (hother l hkl ▸ hl)).congr ha (hwith l)
  · rw [hwith]
    cases hkl : k == l with
    | true => exact hnone l hkl hl
    | false => exact h.absent l (hother l hkl ▸ hl)
  · cases hkl : k == l with
    | true =>
        obtain ⟨-, hpos, out, hout, hrow⟩ := hsome l e hkl hl
        exact ⟨hpos, out, hout, by rw [hrow, ha.rowOf]⟩
    | false =>
        have hl := hother l hkl ▸ hl
        obtain ⟨hpos, out, hout, hrow⟩ := h.settled l e hl fun hst => hs (hstale l hst hkl)
        exact ⟨hpos, out, hout, by rw [hrows l e out hkl hl hout, hrow, ha.rowOf]⟩

/-- After the output of a group was looked at. -/
structure Refreshed (W : Row V → Prop) (n : GroupNode V) (s : Staging V) (stale : Key V → Prop)
    (n' : GroupNode V) (s' : Staging V) : Prop where
  work : Staging.Work W s n.outputIds s' n'.outputIds
  sound : n'.Sound stale s'.arena.row
  alike : Alike n n'
  members : n'.members = n.members

theorem disband_refreshed (h : n.Sound stale s.arena.row) (hc : s.Clear n.outputIds I)
    (hk : n.groups.get? k = some entry) (hsize : entry.size = 0)
    (hstale : ∀ l, stale l → (k == l) = false → stale' l) :
    (do
      match entry.output with
      | some out => Stage.retract out
      | none => pure ()
      return { n with
        groups := n.groups.erase k
        spare := entry.accumulators.map (·.reset) :: n.spare } : Stage V (GroupNode V)).Ensures s
      (n.Refreshed W s stale') R := by
  have he := h.entry k entry hk
  have hempty : ∀ l, (k == l) = true → n.membersWith l = 0 := fun l hkl => by
    rw [← membersWith_congr n hkl]
    exact Multiset.card_eq_zero.mp (he.size.symm.trans hsize)
  have hget := h.groups_distinct.get?_erase k
  have hperm := (Table.values_erase_of_some hk).filterMap (·.output)
  have hsound : ∀ ρ', (∀ x, ρ' x = s.arena.row x) → ({ n with
      groups := n.groups.erase k
      spare := entry.accumulators.map (·.reset) :: n.spare } : GroupNode V).Sound stale' ρ' := by
    intro ρ' hρ
    refine h.resettle (k := k) ⟨rfl, rfl⟩ rfl (h.groups_distinct.erase k) ?_ (fun l hkl => ?_)
      (fun _ _ out _ _ _ => hρ out) (fun l e hkl hl => ?_) (fun l hkl _ => hempty l hkl) hstale
    · intro as has
      rcases List.mem_cons.mp has with rfl | has
      · exact he.reflects.reset
      · exact h.spare as has
    · rw [hget, if_neg (by simp [hkl])]
    · rw [hget, if_pos hkl] at hl
      cases hl
  cases hout : entry.output with
  | some out =>
      have hmem := mem_outputIds hk hout
      have ha := hc.tended.active out hmem
      refine .of_bind (.of_retract ha (.of_pure ⟨?_, hsound _ (Staging.row_retracted ha),
        ⟨rfl, rfl⟩, rfl⟩))
      refine (Staging.Work.refl.retract hmem).perm ?_
      rw [List.filterMap_cons_some hout] at hperm
      have herase := hperm.erase out
      rwa [List.erase_cons_head] at herase
  | none =>
      refine .of_bind (.of_pure (.of_pure ⟨.perm .refl ?_, hsound _ fun _ => rfl, ⟨rfl, rfl⟩,
        rfl⟩))
      rwa [List.filterMap_cons_none hout] at hperm

/-- The output of a group that stays shows what its accumulators hold now. -/
theorem updated_refreshed (h : n.Sound stale s.arena.row) (hc : s.Clear n.outputIds I)
    (hk : n.groups.get? k = some entry) (hpos : 0 < entry.size) (hout : entry.output = some out)
    (hW : W (n.rowOf entry)) (hstale : ∀ l, stale l → (k == l) = false → stale' l) :
    n.Refreshed W s stale' n (s.updated out (n.rowOf entry)) := by
  have hmem := mem_outputIds hk hout
  have hrow := Staging.row_updated (r := n.rowOf entry) (hc.tended.active out hmem)
    (hc.tended.occupied hmem)
  have hsame : ∀ l, (k == l) = true → n.groups.get? l = some entry := fun l hkl =>
    (Table.get?_congr _ hkl).symm.trans hk
  refine ⟨.update .refl hmem hW, h.resettle (k := k) ⟨rfl, rfl⟩ rfl h.groups_distinct h.spare
    (fun _ _ => rfl) (fun l e o hkl hl ho => ?_) (fun l e hkl hl => ?_) (fun l hkl hl => ?_)
    hstale, ⟨rfl, rfl⟩, rfl⟩
  · rw [hrow, if_neg]
    rintro rfl
    have hkl' := output_inj h.groups_distinct hc.tended.nodup hk hl hout ho
    rw [hkl] at hkl'
    cases hkl'
  · obtain rfl := Option.some.inj ((hsame l hkl).symm.trans hl)
    exact ⟨h.entry l entry hl, hpos, out, hout, by rw [hrow, if_pos rfl]⟩
  · rw [hsame l hkl] at hl
    cases hl

/-- A group without an output gets one. -/
theorem inserted_refreshed (h : n.Sound stale s.arena.row) (hc : s.Clear n.outputIds I)
    (hk : n.groups.get? k = some entry) (hpos : 0 < entry.size) (hout : entry.output = none)
    (hW : W (n.rowOf entry)) (hstale : ∀ l, stale l → (k == l) = false → stale' l) :
    n.Refreshed W s stale'
      { n with groups := n.groups.insert k { entry with output := some s.arena.next } }
      (s.inserted (n.rowOf entry)) := by
  have hrow := Staging.row_inserted (r := n.rowOf entry) hc.tended.valid
  have hget : ∀ l, (n.groups.insert k { entry with output := some s.arena.next }).get? l =
      if k == l then some { entry with output := some s.arena.next }
      else n.groups.get? l := fun l => Table.get?_insert ..
  refine ⟨?_, h.resettle (k := k) ⟨rfl, rfl⟩ rfl (h.groups_distinct.insert _ _) h.spare
    (fun l hkl => ?_) (fun l e o _ hl ho => ?_) (fun l e hkl hl => ?_) (fun l hkl hl => ?_) hstale,
    ⟨rfl, rfl⟩, rfl⟩
  · refine (Staging.Work.refl.insert hW).perm ?_
    have hbefore := (Table.values_erase_of_some hk).filterMap (·.output)
    rw [List.filterMap_cons_none hout] at hbefore
    have hafter := (n.groups.values_insert k
      { entry with output := some s.arena.next }).filterMap (·.output)
    exact (hbefore.cons _).trans hafter.symm
  · exact (hget l).trans (if_neg (by simp [hkl]))
  · have hmem := mem_outputIds hl ho
    rw [hrow, if_neg fun (hon : o = s.arena.next) => hc.next_not_mem (hon ▸ hmem)]
  · obtain rfl := Option.some.inj (((hget l).trans (if_pos hkl)).symm.trans hl)
    have hl := h.entry l entry ((Table.get?_congr _ hkl).symm.trans hk)
    exact ⟨⟨hl.size, hl.reflects, hl.key, hl.whole⟩, hpos, s.arena.next, rfl,
      by rw [hrow, if_pos rfl]; rfl⟩
  · rw [(hget l).trans (if_pos hkl)] at hl
    cases hl

theorem refresh_ensures (stale' : Key V → Prop) (h : n.Sound stale s.arena.row)
    (hc : s.Clear n.outputIds I)
    (hW : ∀ row : Row V, row.length = n.keys.length + n.collectors.length → W row)
    (hstale : ∀ l, stale l → (k == l) = false → stale' l) :
    (n.refresh k).Ensures s (n.Refreshed W s stale') R := by
  unfold refresh
  cases hk : n.groups.get? k with
  | none =>
      have hnone : ∀ l, (k == l) = true → n.groups.get? l = none := fun l hkl =>
        (Table.get?_congr _ hkl).symm.trans hk
      refine .of_pure ⟨.refl, h.resettle (k := k) ⟨rfl, rfl⟩ rfl h.groups_distinct h.spare
        (fun _ _ => rfl) (fun _ _ _ _ _ _ => rfl) (fun l e hkl hl => ?_)
        (fun l hkl _ => h.absent l (hnone l hkl)) hstale, ⟨rfl, rfl⟩, rfl⟩
      rw [hnone l hkl] at hl
      cases hl
  | some entry =>
      simp only
      split
      · rename_i hsize
        exact disband_refreshed h hc hk hsize hstale
      · rename_i hsize
        have hpos := Nat.pos_of_ne_zero hsize
        have hWrow := hW _ (h.length_rowOf hk hsize)
        cases hout : entry.output with
        | some out =>
            exact .of_bind (.of_update (hc.tended.active out (mem_outputIds hk hout)) (.of_pure
              (updated_refreshed h hc hk hpos hout hWrow hstale)))
        | none =>
            exact .of_bind (.of_insert (.of_pure
              (inserted_refreshed h hc hk hpos hout hWrow hstale)))

end Refresh

section Events

variable {n : GroupNode V} {h h' : Hearing} {ρ ρ' : TupleId → Row V} {s : Staging V} {t : TupleId}
  {W : Row V → Prop}

/-- What hearing of an event leads to. -/
def Heard (W : Row V → Prop) (n : GroupNode V) (s : Staging V) (h : Hearing) (n' : GroupNode V)
    (s' : Staging V) : Prop :=
  Staging.Work W s n.outputIds s' n'.outputIds ∧ n'.Books h s'.arena.row ∧ Alike n n'

/-- Rows of outputs stay, and an input whose row changes is no longer fresh. -/
theorem Books.frame (hb : n.Books h ρ) (hknown : ∀ t, h.known .left t ↔ h'.known .left t)
    (hfresh : ∀ t, h'.fresh .left t → h.fresh .left t ∧ ρ' t = ρ t)
    (houts : ∀ x ∈ n.outputIds, ρ' x = ρ x) : n.Books h' ρ' := by
  refine ⟨fun t => (hb.known_iff t).trans (hknown t), fun t ht => ?_, hb.sound.members_distinct,
    hb.sound.groups_distinct, hb.sound.origin, hb.sound.fits, hb.sound.spare, hb.sound.entry,
    hb.sound.absent, fun k e hk hs => ?_⟩
  · obtain ⟨ht, hrow⟩ := hfresh t ht
    rw [hrow]
    exact hb.fresh t ht
  · obtain ⟨hpos, out, hout, hrow⟩ := hb.sound.settled k e hk hs
    exact ⟨hpos, out, hout, by rw [houts out (mem_outputIds hk hout), hrow]⟩

/-- A node that has taken up what an input is now contributing. -/
theorem books_join {n' : GroupNode V} {m : GroupMember V} (hb : n.Books h ρ)
    (hs : n'.Sound (fun _ => False) ρ') (ha : Alike n n')
    (hget : ∀ x, n'.members.get? x = if t = x then some m else n.members.get? x)
    (hm : n.member (ρ' t) = .ok m) (hrows : ∀ x, h.fresh .left x → ρ' x = ρ x) :
    n'.Books (h.hear .left .insert t) ρ' := by
  refine ⟨fun x => ?_, fun x hx => ?_, hs⟩
  · rw [hget]
    by_cases htx : t = x
    · subst htx
      simp [Hearing.hear]
    · rw [if_neg htx, hb.known_iff]
      simp [Hearing.hear, Ne.symm htx]
  · rw [hget, ha.member]
    by_cases htx : t = x
    · subst htx
      exact ⟨m, if_pos rfl, hm⟩
    · have hx := hx.resolve_left fun hx => htx hx.2.symm
      rw [if_neg htx, hrows x hx]
      exact hb.fresh x hx

/-- Looking at the group that an input has joined makes the node's books hold. -/
theorem close_ensures {n₁ : GroupNode V} {s₁ : Staging V} {stale : Key V → Prop}
    {m : GroupMember V} (hb : n.Books h s.arena.row) (hc : s.Clear n.outputIds (h.inputs .left t))
    (w : Staging.Work W s n.outputIds s₁ n₁.outputIds) (hs : n₁.Sound stale s₁.arena.row)
    (hstale : ∀ l, stale l → (m.key == l) = true) (ha : Alike n n₁)
    (hget : ∀ x, n₁.members.get? x = if t = x then some m else n.members.get? x)
    (hm : n.member (s.arena.row t) = .ok m)
    (hW : ∀ row : Row V, row.length = n.keys.length + n.collectors.length → W row) :
    (n₁.refresh m.key).Ensures s₁ (n.Heard W s (h.hear .left .insert t)) R := by
  refine (refresh_ensures (W := W) (fun _ => False) hs (hc.work w) ?_ ?_).mono ?_ fun _ hf => hf
  · rw [ha.keys, ha.collectors]
    exact hW
  · intro l hl hkl
    rw [hstale l hl] at hkl
    cases hkl
  · rintro n' s' ⟨w', hs', ha', hmembers⟩
    have hw := w.trans w'
    refine ⟨hw, books_join hb hs' (ha.trans ha') (m := m) (fun x => ?_) ?_ fun x hx => ?_,
      ha.trans ha'⟩
    · rw [hmembers, hget]
    · rw [hc.row hw (h.inputs_self .left t), hm]
    · exact hc.row hw (Hearing.inputs_of_fresh hx)

theorem add_ensures (hb : n.Books h s.arena.row) (ht : n.members.get? t = none)
    (hc : s.Clear n.outputIds (h.inputs .left t))
    (hW : ∀ row : Row V, row.length = n.keys.length + n.collectors.length → W row) :
    (n.add t).Ensures s (n.Heard W s (h.hear .left .insert t))
      (n.Trips .insert (s.arena.row t)) := by
  refine .of_bind (.of_rowOf (.of_bind (.of_except (fun m hm => ?_) fun f hf =>
    Or.inr ⟨nofun, Or.inl hf⟩)))
  refine .of_bind (.of_except (fun n₁ hn₁ => ?_) fun f hf => foldIn_trips hb.sound hm nofun hf)
  have h₁ := foldIn_folded hb.sound ht hm hn₁
  refine close_ensures hb hc (.perm .refl h₁.outputs) h₁.sound (fun l hl => ?_) h₁.alike
    (fun x => ?_) hm hW
  · exact hl.resolve_right fun hl => hl
  · rw [h₁.members, Table.get?_insert]
    simp

theorem update_ensures {previous : GroupMember V} (hb : n.Books h s.arena.row)
    (ht : n.members.get? t = some previous) (hc : s.Clear n.outputIds (h.inputs .left t))
    (hW : ∀ row : Row V, row.length = n.keys.length + n.collectors.length → W row) :
    (n.onEvent .update t).Ensures s (n.Heard W s (h.hear .left .update t))
      (n.Trips .update (s.arena.row t)) := by
  have hd := hb.sound.members_distinct
  unfold onEvent
  simp only [ht]
  refine .of_bind (.of_except (fun n₁ hn₁ => ?_) fun f hf => Or.inl (foldOut_fault hb.sound ht hf))
  have h₁ := foldOut_folded hb.sound ht hn₁
  have hmember : n₁.member = n.member := h₁.alike.member
  have htrips : n₁.Trips = n.Trips := by
    unfold Trips FailsOn
    rw [hmember, h₁.alike.kinds]
  refine .of_bind (.of_rowOf (.of_bind (.of_except (fun m hm => ?_) fun f hf =>
    Or.inr ⟨nofun, Or.inl (hmember ▸ hf)⟩)))
  have ht₁ : n₁.members.get? t = none := by
    rw [h₁.members, hd.get?_erase, if_pos BEq.rfl]
  refine .of_bind (.of_except (fun n₂ hn₂ => ?_) fun f hf =>
    htrips ▸ foldIn_trips h₁.sound hm nofun hf)
  have h₂ := foldIn_folded h₁.sound ht₁ hm hn₂
  have ha₂ := h₁.alike.trans h₂.alike
  have hw₂ : Staging.Work W s n.outputIds s n₂.outputIds :=
    .perm .refl (h₁.outputs.trans h₂.outputs)
  have hget : ∀ x, n₂.members.get? x = if t = x then some m else n.members.get? x := by
    intro x
    rw [h₂.members, Table.get?_insert, h₁.members, hd.get?_erase]
    by_cases htx : t = x <;> simp [htx]
  rw [hmember] at hm
  split
  · rename_i hsame
    refine .of_bind (.of_pure (close_ensures hb hc hw₂ h₂.sound (fun l hl => ?_) ha₂ hget hm hW))
    rcases hl with hl | hl | hl
    · exact hl
    · exact BEq.trans hsame hl
    · exact hl.elim
  · refine .of_bind ((refresh_ensures (W := W) (fun l => (m.key == l) = true) h₂.sound
      (hc.work hw₂) ?_ fun l hl hkl => ?_).mono ?_ fun _ hf => hf)
    · rw [ha₂.keys, ha₂.collectors]
      exact hW
    · rcases hl with hl | hl | hl
      · exact hl
      · rw [hl] at hkl
        cases hkl
      · exact hl.elim
    · rintro n₃ s₃ ⟨w₃, hs₃, ha₃, hmembers₃⟩
      exact close_ensures hb hc (hw₂.trans w₃) hs₃ (fun _ hl => hl) (ha₂.trans ha₃)
        (fun x => by rw [hmembers₃, hget]) hm hW

theorem retract_ensures (hb : n.Books h s.arena.row) (hc : s.Clear n.outputIds (h.inputs .left t))
    (hW : ∀ row : Row V, row.length = n.keys.length + n.collectors.length → W row) :
    (n.onEvent .retract t).Ensures s (n.Heard W s (h.hear .left .retract t))
      (n.Trips .retract (s.arena.row t)) := by
  have hd := hb.sound.members_distinct
  have hforget : ∀ {n' : GroupNode V} {ρ' : TupleId → Row V}, n'.Sound (fun _ => False) ρ' →
      Alike n n' → n'.members = n.members.erase t → (∀ x, h.fresh .left x → ρ' x = s.arena.row x) →
      n'.Books (h.hear .left .retract t) ρ' := by
    intro n' ρ' hs ha hmembers hrows
    have hget : ∀ x, n'.members.get? x = if t = x then none else n.members.get? x := fun x => by
      rw [hmembers, hd.get?_erase]
      simp
    refine ⟨fun x => ?_, fun x hx => ?_, hs⟩
    · rw [hget]
      by_cases htx : t = x
      · subst htx
        simp [Hearing.hear]
      · rw [if_neg htx, hb.known_iff]
        simp [Hearing.hear, Ne.symm htx]
    · rw [hget, ha.member, if_neg fun htx => hx.2 ⟨rfl, htx.symm⟩, hrows x hx.1]
      exact hb.fresh x hx.1
  unfold onEvent
  cases ht : n.members.get? t with
  | none =>
      exact .of_pure ⟨.refl, hforget hb.sound ⟨rfl, rfl⟩ (Table.erase_of_none ht).symm
        fun _ _ => rfl, ⟨rfl, rfl⟩⟩
  | some previous =>
      refine .of_bind (.of_except (fun n₁ hn₁ => ?_) fun f hf =>
        Or.inl (foldOut_fault hb.sound ht hf))
      have h₁ := foldOut_folded hb.sound ht hn₁
      have hw₁ : Staging.Work W s n.outputIds s n₁.outputIds := .perm .refl h₁.outputs
      refine (refresh_ensures (W := W) (fun _ => False) h₁.sound (hc.work hw₁) ?_ ?_).mono ?_
        fun _ hf => hf
      · rw [h₁.alike.keys, h₁.alike.collectors]
        exact hW
      · rintro l (hl | hl) hkl
        · rw [hl] at hkl
          cases hkl
        · exact hl
      · rintro n' s' ⟨w, hs, ha, hmembers⟩
        have hw := hw₁.trans w
        exact ⟨hw, hforget hs (h₁.alike.trans ha) (hmembers.trans h₁.members)
          fun x hx => hc.row hw (Hearing.inputs_of_fresh hx), h₁.alike.trans ha⟩

/-- A grouping that hears of an event keeps its books, unless a user function or a sum stops it. -/
theorem onEvent_ensures {e : Event} (hb : n.Books h s.arena.row) (he : h.Expects .left e t)
    (hc : s.Clear n.outputIds (h.inputs .left t))
    (hW : ∀ row : Row V, row.length = n.keys.length + n.collectors.length → W row) :
    (n.onEvent e t).Ensures s (n.Heard W s (h.hear .left e t))
      (n.Trips e (s.arena.row t)) := by
  have hknown : (∃ m, n.members.get? t = some m) ↔ h.known .left t := hb.known_iff t
  cases e with
  | insert =>
      refine add_ensures hb ?_ hc hW
      cases ht : n.members.get? t with
      | none => rfl
      | some m => exact absurd (hknown.mp ⟨m, ht⟩) he
  | update =>
      obtain ⟨previous, ht⟩ := hknown.mpr he
      exact update_ensures hb ht hc hW
  | retract => exact retract_ensures hb hc hW

end Events

end ConstraintScoring.GroupNode
