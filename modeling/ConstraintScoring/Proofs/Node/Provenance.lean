import ConstraintScoring.Proofs.Node.Grouping

/-!
# Where the values of a group come from

A group keeps its keys as its first member gave them, and its collectors keep the first of equal
values, so that a group may show what a member gave that it does not have any more. All that a group
shows was given by a member that it had since it was made, and it is equal to what its members give
now.
-/

namespace ConstraintScoring

variable {V : Type}

/-- The values among what is shown. -/
def Collected.cells : Collected V → List V
  | extreme v => v.toList
  | values vs => vs
  | number _ | decimal _ | mean _ => []

section Held

variable [Cell V] {v w : V}

theorem Tally.mem_values_insert {tally : Tally V} (h : w ∈ (tally.insert v).values) :
    w = v ∨ w ∈ tally.values := by
  obtain ⟨e, he, rfl⟩ := List.mem_map.mp h
  rcases Tally.mem_insertIn he with ⟨-, hv⟩ | ⟨e', he', heq, -⟩
  · exact Or.inl hv
  · exact Or.inr (heq ▸ List.mem_map_of_mem he')

theorem Tally.mem_values_remove {tally : Tally V} (h : w ∈ (tally.remove v).values) :
    w ∈ tally.values := (Tally.removeIn_keys tally.counts).subset h

theorem SortedList.mem_values_insert {values : SortedList V} (h : w ∈ (values.insert v).values) :
    w = v ∨ w ∈ values.values := by
  rcases List.mem_append.mp h with h | h
  · exact Or.inr ((List.takeWhile_sublist _).subset h)
  · exact (List.mem_cons.mp h).imp id List.mem_of_mem_drop

theorem SortedList.mem_values_remove {values : SortedList V} (h : w ∈ (values.remove v).values) :
    w ∈ values.values := by
  unfold SortedList.remove at h
  dsimp only at h
  split at h
  · split at h
    · rcases List.mem_append.mp h with h | h
      · exact (List.takeWhile_sublist _).subset (List.mem_of_mem_dropLast h)
      · exact List.mem_of_mem_drop h
    · exact h
  · exact h

namespace Accumulator

variable {a a' : Accumulator V} {c : Contribution V} {bag : Multiset (Contribution V)}

/-- The values that an accumulator keeps one by one. -/
def held : Accumulator V → List V
  | min tally | max tally | countDistinct tally | toSet tally => tally.values
  | toList values => values.values
  | count _ | sum _ _ | sumDecimal _ | average _ _ => []

omit [Cell V] in
@[simp] theorem held_new (kind : CollectorKind) : (new kind : Accumulator V).held = [] := by
  cases kind <;> rfl

omit [Cell V] in
theorem mem_held_of_mem_cells (h : v ∈ a.finish.cells) : v ∈ a.held := by
  cases a with
  | min tally => exact List.mem_of_mem_head? (Option.mem_toList.mp h)
  | max tally => exact List.mem_of_mem_getLast? (Option.mem_toList.mp h)
  | toSet tally => exact h
  | toList values => exact h
  | _ => cases h

theorem held_of_accumulate (h : a.accumulate c = .ok a') (hv : v ∈ a'.held) :
    c = .value v ∨ v ∈ a.held := by
  cases a with
  | count n =>
      cases c <;> cases h
      cases hv
  | sum range total =>
      cases c <;> try cases h
      rw [inRange_eq h] at hv
      cases hv
  | sumDecimal | average =>
      cases c <;> try cases h
      obtain ⟨total', -, h⟩ := Outcome.bind_eq_ok.mp h
      cases h
      cases hv
  | min tally | max tally | countDistinct tally | toSet tally =>
      cases c <;> cases h
      exact (Tally.mem_values_insert hv).imp (fun h => congrArg Contribution.value h.symm) id
  | toList values =>
      cases c <;> cases h
      exact (SortedList.mem_values_insert hv).imp (fun h => congrArg Contribution.value h.symm) id

theorem held_of_retract (h : a.retract c = .ok a') (hv : v ∈ a'.held) : v ∈ a.held := by
  cases a with
  | count n =>
      cases c <;> cases h
      cases hv
  | sum range total =>
      cases c <;> try cases h
      rw [inRange_eq h] at hv
      cases hv
  | sumDecimal | average =>
      cases c <;> try cases h
      obtain ⟨total', -, h⟩ := Outcome.bind_eq_ok.mp h
      cases h
      cases hv
  | min tally | max tally | countDistinct tally | toSet tally =>
      cases c <;> cases h
      exact Tally.mem_values_remove hv
  | toList values =>
      cases c <;> cases h
      exact SortedList.mem_values_remove hv

/-- A value that is kept is equal to one of those reflected. -/
theorem Reflects.of_held [Std.TransOrd V] (h : a.Reflects bag) (hv : v ∈ a.held) :
    ∃ w ∈ valuesOf bag, Cell.same v w = true := by
  cases a with
  | min tally | max tally | countDistinct tally | toSet tally =>
      obtain ⟨w, hw, hwv⟩ := (Tally.Holds.covers h v).mp ⟨v, hv, Cell.same_refl v⟩
      exact ⟨w, hw, Cell.same_symm hwv⟩
  | toList values => exact Multiset.exists_mem_of_rel_of_mem h.values hv
  | _ => cases hv

end Accumulator

end Held

section Places

variable [Cell V] {as as' : List (Accumulator V)} {cs : List (Contribution V)} {i : Nat}
  {a a' : Accumulator V}

namespace GroupNode

omit [Cell V] in
/-- What works through accumulators and contributions side by side makes of the accumulator at a
place what it makes of it with the contribution at that place. -/
theorem at_of_stepwise {f : List (Accumulator V) → List (Contribution V) →
      Except Fault (List (Accumulator V))}
    {op : Accumulator V → Contribution V → Except Fault (Accumulator V)}
    (hnil : ∀ cs, f [] cs = .ok []) (hrest : ∀ as, f as [] = .ok as)
    (hcons : ∀ a as c cs, f (a :: as) (c :: cs) = do
      let a ← op a c
      return a :: (← f as cs))
    (h : f as cs = .ok as') (hi : as'[i]? = some a') :
    ∃ a, as[i]? = some a ∧ (a' = a ∨ ∃ c, cs[i]? = some c ∧ op a c = .ok a') := by
  induction as generalizing cs as' i with
  | nil =>
      rw [hnil] at h
      obtain rfl := Except.ok.inj h
      cases hi
  | cons a as ih =>
      cases cs with
      | nil =>
          rw [hrest] at h
          obtain rfl := Except.ok.inj h
          exact ⟨a', hi, Or.inl rfl⟩
      | cons c cs =>
          rw [hcons] at h
          obtain ⟨a₁, ha₁, h⟩ := Outcome.bind_eq_ok.mp h
          obtain ⟨as₁, has₁, h⟩ := Outcome.bind_eq_ok.mp h
          obtain rfl := Except.ok.inj h
          cases i with
          | zero =>
              obtain rfl := Option.some.inj hi
              exact ⟨a, rfl, Or.inr ⟨c, rfl, ha₁⟩⟩
          | succ i => exact ih has₁ hi

theorem accumulateAll_at (h : accumulateAll as cs = .ok as') (hi : as'[i]? = some a') :
    ∃ a, as[i]? = some a ∧ (a' = a ∨ ∃ c, cs[i]? = some c ∧ a.accumulate c = .ok a') :=
  at_of_stepwise (fun _ => rfl) (fun as => by cases as <;> rfl) (fun _ _ _ _ => rfl) h hi

theorem retractAll_at (h : retractAll as cs = .ok as') (hi : as'[i]? = some a') :
    ∃ a, as[i]? = some a ∧ (a' = a ∨ ∃ c, cs[i]? = some c ∧ a.retract c = .ok a') :=
  at_of_stepwise (fun _ => rfl) (fun as => by cases as <;> rfl) (fun _ _ _ _ => rfl) h hi

end GroupNode

/-- What the collector at a place was given. -/
def columnOf (i : Nat) (bag : Multiset (List (Contribution V))) : Multiset (Contribution V) :=
  bag.filterMap (·[i]?)

omit [Cell V] in
theorem columnOf_succ (i : Nat) (bag : Multiset (List (Contribution V))) :
    columnOf (i + 1) bag = columnOf i (rests bag) := by
  unfold columnOf rests
  rw [Multiset.filterMap_map]
  congr 1
  funext cs
  cases cs <;> rfl

theorem AllReflect.at [Std.TransOrd V] {kinds : List CollectorKind}
    {bag : Multiset (List (Contribution V))} (h : AllReflect as kinds bag)
    (hi : as[i]? = some a) : a.Reflects (columnOf i bag) := by
  induction as generalizing kinds bag i with
  | nil => cases hi
  | cons a' as ih =>
      cases kinds with
      | nil => exact False.elim h
      | cons kind kinds =>
          obtain ⟨-, ha, has⟩ := h
          cases i with
          | zero =>
              obtain rfl := Option.some.inj hi
              have hzero : columnOf 0 bag = firsts bag := by
                unfold columnOf firsts
                congr 1
                funext cs
                cases cs <;> rfl
              rwa [hzero]
          | succ i =>
              rw [columnOf_succ]
              exact ih has hi

end Places

/-- All that a group shows was given by the members in `past` with its key. -/
structure GroupEntry.Drawn [Cell V] (past : List (GroupMember V)) (k : Key V)
    (entry : GroupEntry V) : Prop where
  keyCells : ∃ m ∈ past, (m.key == k) = true ∧ entry.keyCells = m.key.cells
  values : ∀ (i : Nat) (a : Accumulator V), entry.accumulators[i]? = some a → ∀ v ∈ a.held,
    ∃ m ∈ past, (m.key == k) = true ∧ m.contributions[i]? = some (.value v)

theorem GroupEntry.Drawn.mono [Cell V] {past past' : List (GroupMember V)} {k : Key V}
    {entry : GroupEntry V} (h : entry.Drawn past k)
    (hpast : ∀ m ∈ past, (m.key == k) = true → m ∈ past') : entry.Drawn past' k := by
  refine ⟨?_, fun i a hi v hv => ?_⟩
  · obtain ⟨m, hm, hmk, hcells⟩ := h.keyCells
    exact ⟨m, hpast m hm hmk, hmk, hcells⟩
  · obtain ⟨m, hm, hmk, hgave⟩ := h.values i a hi v hv
    exact ⟨m, hpast m hm hmk, hmk, hgave⟩

namespace GroupNode

variable [Cell V] {n n' : GroupNode V} {past : List (GroupMember V)} {k : Key V}
  {entry : GroupEntry V} {s : Staging V} {e : Event} {t : TupleId} {m : GroupMember V}

/-- All groups show what was given in the past, and accumulators to be used again hold nothing. -/
structure Drawn (past : List (GroupMember V)) (n : GroupNode V) : Prop where
  distinct : n.groups.Distinct
  spare : ∀ as ∈ n.spare, ∀ a ∈ as, a.held = []
  entry : ∀ k entry, n.groups.get? k = some entry → entry.Drawn past k

variable [Std.TransOrd V]

/-- One entry is replaced by one that shows what was given in the past. -/
theorem Drawn.replace (h : n.Drawn past) (hspare : ∀ as ∈ n'.spare, as ∈ n.spare)
    (hgroups : n'.groups = n.groups.insert m.key entry)
    (hentry : ∀ l, (m.key == l) = true → entry.Drawn past l) : n'.Drawn past := by
  refine ⟨hgroups ▸ h.distinct.insert _ _, fun as has => h.spare as (hspare as has),
    fun l entry' hl => ?_⟩
  rw [hgroups, Table.get?_insert] at hl
  split at hl
  · rename_i hkl
    obtain rfl := Option.some.inj hl
    exact hentry l hkl
  · exact h.entry l entry' hl

theorem Drawn.foldOut (h : n.Drawn past) (hok : n.foldOut m = .ok n') : n'.Drawn past := by
  obtain ⟨entry, as, hk, has, hgroups, -, hspare, -⟩ := foldOut_ok hok
  refine h.replace (fun _ => hspare ▸ id) hgroups fun l hl => ?_
  have hd := h.entry l entry ((Table.get?_congr n.groups hl).symm.trans hk)
  refine ⟨hd.keyCells, fun i a hi v hv => ?_⟩
  obtain ⟨a₀, ha₀, rfl | ⟨c, -, hret⟩⟩ := retractAll_at has hi
  · exact hd.values i a ha₀ v hv
  · exact hd.values i a₀ ha₀ v (Accumulator.held_of_retract hret hv)

theorem Drawn.foldIn (h : n.Drawn past) (hm : m ∈ past) (hok : n.foldIn t m = .ok n') :
    n'.Drawn past := by
  obtain ⟨entry, as, hk, has, hgroups, -, hspare, -⟩ := foldIn_ok hok
  refine h.replace hspare hgroups fun l hl => ?_
  -- What the entry showed before was given in the past, and a new one shows the key of the member.
  have hd : entry.Drawn past l := by
    rcases hk with hk | ⟨-, rfl⟩
    · exact h.entry l entry ((Table.get?_congr n.groups hl).symm.trans hk)
    · refine ⟨⟨m, hm, hl, rfl⟩, fun i a hi v hv => ?_⟩
      have hempty : a.held = [] := by
        have hmem : a ∈ n.takeAccumulators.1 := List.mem_of_getElem? hi
        unfold takeAccumulators at hmem
        split at hmem
        · rename_i as' spare hs
          exact h.spare as' (by simp [hs]) a hmem
        · obtain ⟨collector, -, rfl⟩ := List.mem_map.mp hmem
          exact Accumulator.held_new collector.kind
      rw [hempty] at hv
      cases hv
  refine ⟨hd.keyCells, fun i a hi v hv => ?_⟩
  obtain ⟨a₀, ha₀, rfl | ⟨c, hc, hacc⟩⟩ := accumulateAll_at has hi
  · exact hd.values i a ha₀ v hv
  · rcases Accumulator.held_of_accumulate hacc hv with rfl | hv
    · exact ⟨m, hm, hl, hc⟩
    · exact hd.values i a₀ ha₀ v hv

theorem Drawn.looked {out : TupleId} (h : n.Drawn past) (hlook : n.Looked k out n') :
    n'.Drawn past := by
  refine ⟨hlook.distinct h.distinct, ?_, fun l entry hl => ?_⟩
  · cases hlook with
    | same | shown => exact h.spare
    | gone =>
        intro as has
        rcases List.mem_cons.mp has with rfl | has
        · intro a ha
          obtain ⟨a', -, rfl⟩ := List.mem_map.mp ha
          rw [Accumulator.reset_eq_new, Accumulator.held_new]
        · exact h.spare as has
  · rcases hlook.get? h.distinct l with hsame | ⟨-, hgone | ⟨entry', hentry', hshown⟩⟩
    · exact h.entry l entry (hsame ▸ hl)
    · rw [hgone] at hl
      cases hl
    · obtain rfl := Option.some.inj (hshown.symm.trans hl)
      exact ⟨(h.entry l entry' hentry').keyCells, (h.entry l entry' hentry').values⟩

/-- What is shown after an event was given in the past or by the input of the event. -/
theorem onEvent_drawn (h : n.Drawn past) (hd : n.members.Distinct)
    (hinsert : e = .insert → n.members.get? t = none) : (n.onEvent e t).Ensures s
      (fun n' _ => n'.Drawn ((n.contributed? e (s.arena.row t)).toList ++ past)) fun _ => True := by
  refine onEvent_steps (P := fun n' _ => n'.Drawn _) hd hinsert ?_ (fun _ => Drawn.foldOut)
    (fun hm _ hdrawn => hdrawn.foldIn ?_) fun _ hdrawn => ?_
  · exact ⟨h.distinct, h.spare, fun k entry hk =>
      (h.entry k entry hk).mono fun _ hm _ => List.mem_append_right _ hm⟩
  · exact List.mem_append_left _ (Option.mem_toList.mpr hm)
  · exact (refresh_looked _ _ _).mono (fun _ _ hlook => hdrawn.looked hlook.1) fun _ hf => hf

end GroupNode

/-- A grouping and what its groups were given. -/
structure Chronicle (V : Type) where
  node : GroupNode V
  /-- What the groups that are there were given since they were made, even if it was taken back. -/
  past : List (GroupMember V)

namespace Chronicle

variable [Cell V]

def new (keys : List (Row V → Except Fault V)) (collectors : List (Collector V)) : Chronicle V :=
  ⟨.new keys collectors, []⟩

/-- What an input contributes from now on is written down, and what was contributed to groups that
are gone is forgotten. -/
def write (n : Chronicle V) (node : GroupNode V) (t : TupleId) : Chronicle V :=
  ⟨node, ((node.members.get? t).toList ++ n.past).filter fun m => (node.groups.get? m.key).isSome⟩

def onEvent (n : Chronicle V) (e : Event) (t : TupleId) : Stage V (Chronicle V) := do
  return n.write (← n.node.onEvent e t) t

def reader : Reader V (Chronicle V) := ⟨fun n _ => n.onEvent, (· = .left)⟩

variable [Std.TransOrd V] {keys : List (Row V → Except Fault V)} {collectors : List (Collector V)}

/-- What is known of the past explains what the groups show. -/
structure Books (keys : List (Row V → Except Fault V)) (collectors : List (Collector V))
    (n : Chronicle V) (h : Hearing) (ρ : TupleId → Row V) : Prop where
  node : n.node.Books h ρ
  alike : (GroupNode.new keys collectors).Alike n.node
  recorded : ∀ t m, n.node.members.get? t = some m → m ∈ n.past
  drawn : n.node.Drawn n.past

/-- After an event the past still explains what the groups show. -/
theorem Books.heard {n : Chronicle V} {node : GroupNode V} {h : Hearing} {ρ : TupleId → Row V}
    {s s' : Staging V} {e : Event} {t : TupleId} (hb : Books keys collectors n h s.arena.row)
    (hnode : node.Books (h.hear .left e t) ρ) (halike : (GroupNode.new keys collectors).Alike node)
    (hu : n.node.Underway s e t node s')
    (hdrawn : node.Drawn ((n.node.contributed? e (s.arena.row t)).toList ++ n.past)) :
    Books keys collectors (n.write node t) (h.hear .left e t) ρ := by
  have hd := hb.node.sound.members_distinct
  have hpresent : ∀ x m, node.members.get? x = some m → (node.groups.get? m.key).isSome := by
    intro x m hm
    obtain ⟨entry, hentry⟩ := hnode.sound.entry_of_member hm
    exact Option.isSome_iff_exists.mpr ⟨entry, hentry⟩
  refine ⟨hnode, halike, fun x m hm => ?_, hdrawn.distinct, hdrawn.spare,
    fun k entry hk => (hdrawn.entry k entry hk).mono fun m hm hmk => ?_⟩
  · have hm : node.members.get? x = some m := hm
    refine List.mem_filter.mpr ⟨List.mem_append.mpr ?_, hpresent x m hm⟩
    by_cases hx : x = t
    · subst hx
      exact Or.inl (Option.mem_toList.mpr hm)
    · rw [hu.others hd hx] at hm
      exact Or.inr (hb.recorded x m hm)
  · have hk : node.groups.get? k = some entry := hk
    refine List.mem_filter.mpr ⟨List.mem_append.mpr ?_, ?_⟩
    · refine (List.mem_append.mp hm).imp (fun hm => ?_) id
      exact Option.mem_toList.mpr (hu.record hd hnode (Option.mem_toList.mp hm))
    · rw [Table.get?_congr node.groups hmk, hk]
      rfl

theorem keeps (keys : List (Row V → Except Fault V)) (collectors : List (Collector V)) :
    (reader (V := V)).Keeps (fun n => n.node.outputIds) (Books keys collectors)
      (GroupNode.new keys collectors).Raises where
  frame hb hknown hfresh houts :=
    ⟨hb.node.frame (hknown .left) (hfresh .left) houts, hb.alike, hb.recorded, hb.drawn⟩
  onEvent := by
    rintro n h s side e t hside hb he hc
    obtain rfl : side = .left := hside
    have hinsert : e = .insert → n.node.members.get? t = none := by
      rintro rfl
      exact Option.eq_none_iff_forall_ne_some.mpr fun m hm =>
        he ((hb.node.known_iff t).mp ⟨m, hm⟩)
    have hd := hb.node.sound.members_distinct
    have hheard := (GroupNode.keeps keys collectors).onEvent rfl ⟨hb.node, hb.alike⟩ he hc
    have hunder := GroupNode.onEvent_underway (s := s) hd hb.drawn.distinct hc.tended.valid hinsert
    have hdrawn := GroupNode.onEvent_drawn (s := s) hb.drawn hd hinsert
    refine .of_bind ((hheard.and (hunder.and hdrawn)).mono ?_ fun _ hf => hf.1)
    rintro node s' ⟨⟨hw, hnode, halike⟩, hu, hdrawn⟩
    exact .of_pure ⟨hw, hb.heard hnode halike hu hdrawn⟩

theorem books_new (keys : List (Row V → Except Fault V)) (collectors : List (Collector V))
    {ρ : TupleId → Row V} : Books keys collectors (.new keys collectors) .nothing ρ := by
  refine ⟨GroupNode.books_new keys collectors fun _ => id, ⟨rfl, rfl⟩, fun t m hm => ?_,
    Table.distinct_empty, fun as has => ?_, fun k entry hk => ?_⟩
  · cases hm
  · cases has
  · cases hk

theorem kept_of_lives {c : Scene V (Chronicle V)} (hc : reader.Lives (.new keys collectors) c) :
    c.Kept (fun n => n.node.outputIds) (Books keys collectors) :=
  (keeps keys collectors).lives rfl (fun _ => books_new keys collectors) hc

omit [Std.TransOrd V] in
/-- A chronicle can be kept of the life of any grouping. -/
theorem lives_of_lives {c : Scene V (GroupNode V)}
    (hc : GroupNode.reader.Lives (.new keys collectors) c) :
    ∃ past, reader.Lives (.new keys collectors) (c.withNode ⟨c.node, past⟩) := by
  have hlives := hc.simulates reader (.new keys collectors)
    (fun n m => m.node = n) (fun _ => id) rfl ?_
  · obtain ⟨⟨node, past⟩, rfl, hm⟩ := hlives
    exact ⟨past, hm⟩
  · rintro c side e t n s m - - - hm hrun
    have hrun : (c.node.onEvent e t).run.run c.staging = (.ok n, s) := hrun
    refine ⟨m.write n t, rfl, ?_⟩
    change (onEvent m e t).run.run c.staging = _
    rw [onEvent, hm, Outcome.run_bind, hrun]
    rfl

end Chronicle

namespace GroupNode

variable [Cell V]

/-- What a group shows, by the members it has and by those in `past`: its keys are equal to the keys
of each member, and its values to values that members gave; as they are shown, both were given by
members in the past. -/
structure Represents (n : GroupNode V) (past : List (GroupMember V)) (k : Key V)
    (entry : GroupEntry V) : Prop where
  member : ∃ t m, n.members.get? t = some m ∧ (m.key == k) = true
  keyCells : ∀ t m, n.members.get? t = some m → (m.key == k) = true →
    Cell.sameAll entry.keyCells m.key.cells = true
  values : ∀ (i : Nat) (a : Accumulator V), entry.accumulators[i]? = some a →
    ∀ v ∈ a.finish.cells, ∃ t m w, n.members.get? t = some m ∧ (m.key == k) = true ∧
      m.contributions[i]? = some (.value w) ∧ Cell.same v w = true
  pastKeyCells : ∃ m ∈ past, (m.key == k) = true ∧ entry.keyCells = m.key.cells
  pastValues : ∀ (i : Nat) (a : Accumulator V), entry.accumulators[i]? = some a →
    ∀ v ∈ a.finish.cells, ∃ m ∈ past, (m.key == k) = true ∧
      m.contributions[i]? = some (.value v)

/-- What holds after every event: the outputs show groups, and what these show depends on their
members only, up to equal values. Whatever the groups were given on the way there, what they show is
from it. -/
structure Shown (keys : List (Row V → Except Fault V)) (collectors : List (Collector V))
    (c : Scene V (GroupNode V)) : Prop where
  recorded : ∀ t, (∃ m, c.node.members.get? t = some m) ↔ c.heard.known .left t
  current : ∀ t, c.heard.fresh .left t →
    ∃ m, c.node.members.get? t = some m ∧ (new keys collectors).member (c.row t) = .ok m
  chronicled : ∃ past, Chronicle.reader.Lives (.new keys collectors) (c.withNode ⟨c.node, past⟩)
  output : ∀ past, Chronicle.reader.Lives (.new keys collectors) (c.withNode ⟨c.node, past⟩) →
    ∀ out, c.Output out → ∃ k entry, c.node.groups.get? k = some entry ∧
      entry.output = some out ∧ c.node.Represents past k entry ∧
      c.row out = entry.keyCells ++
        List.zipWith (fun collector a => collector.present a.finish) collectors entry.accumulators
  alike : ∀ c' : Scene V (GroupNode V), reader.Lives (.new keys collectors) c' →
    ∀ k k' entry entry', c.node.groups.get? k = some entry → c'.node.groups.get? k' = some entry' →
      (k == k') = true → Multiset.Rel (List.Forall₂ Contribution.Same) (c.node.contributionsWith k)
        (c'.node.contributionsWith k') →
      Cell.sameAll entry.keyCells entry'.keyCells = true ∧
        List.Forall₂ (fun a b => ¬a.kind.SumsDecimals → a.finish.Same b.finish)
          entry.accumulators entry'.accumulators

variable [Std.TransOrd V] {keys : List (Row V → Except Fault V)} {collectors : List (Collector V)}
  {c : Scene V (GroupNode V)}

theorem Sound.represents {n : GroupNode V} {ρ : TupleId → Row V} {past : List (GroupMember V)}
    {k : Key V} {entry : GroupEntry V} (hs : n.Sound (fun _ => False) ρ)
    (hk : n.groups.get? k = some entry) (hd : entry.Drawn past k) :
    n.Represents past k entry := by
  have he := hs.entry k entry hk
  have hmember : ∀ m ∈ n.membersWith k,
      ∃ t, n.members.get? t = some m ∧ (m.key == k) = true := by
    intro m hm
    obtain ⟨hm, hmk⟩ := Multiset.mem_filter.mp hm
    obtain ⟨t, ht⟩ := hs.members_distinct.mem_values_iff.mp (Multiset.mem_coe.mp hm)
    exact ⟨t, ht, hmk⟩
  refine ⟨?_, fun t m _ hmk => Cell.sameAll_trans he.key (Cell.sameAll_symm hmk),
    fun i a hi v hv => ?_, hd.keyCells, fun i a hi v hv =>
      hd.values i a hi v (Accumulator.mem_held_of_mem_cells hv)⟩
  · have hpos := (hs.settled k entry hk id).1
    rw [he.size, Multiset.card_pos_iff_exists_mem] at hpos
    obtain ⟨m, hm⟩ := hpos
    obtain ⟨t, ht, hmk⟩ := hmember m hm
    exact ⟨t, m, ht, hmk⟩
  · obtain ⟨w, hw, hvw⟩ := (he.reflects.at hi).of_held (Accumulator.mem_held_of_mem_cells hv)
    obtain ⟨contribution, hcon, hvalue⟩ := (Multiset.mem_filterMap _ _).mp hw
    obtain ⟨cs, hcs, hat⟩ := (Multiset.mem_filterMap _ _).mp hcon
    obtain ⟨m, hm, rfl⟩ := Multiset.mem_map.mp hcs
    obtain ⟨t, ht, hmk⟩ := hmember m hm
    have hcon : contribution = .value w := by
      cases contribution with
      | value u => exact congrArg Contribution.value (Option.some.inj hvalue)
      | _ => cases hvalue
    exact ⟨t, m, w, ht, hmk, hcon ▸ hat, hvw⟩

/-- Groups of equal keys whose members contribute equal things show equal things. -/
theorem Sound.alike {n n' : GroupNode V} {ρ ρ' : TupleId → Row V} {k k' : Key V}
    {entry entry' : GroupEntry V} (hs : n.Sound (fun _ => False) ρ)
    (hs' : n'.Sound (fun _ => False) ρ') (hkinds : n'.kinds = n.kinds)
    (hk : n.groups.get? k = some entry) (hk' : n'.groups.get? k' = some entry')
    (hkeys : (k == k') = true) (hsame : Multiset.Rel (List.Forall₂ Contribution.Same)
      (n.contributionsWith k) (n'.contributionsWith k')) :
    Cell.sameAll entry.keyCells entry'.keyCells = true ∧
      List.Forall₂ (fun a b => ¬a.kind.SumsDecimals → a.finish.Same b.finish)
        entry.accumulators entry'.accumulators := by
  have he := hs.entry k entry hk
  have he' := hs'.entry k' entry' hk'
  refine ⟨Cell.sameAll_trans he.key (Cell.sameAll_trans hkeys (Cell.sameAll_symm he'.key)), ?_⟩
  exact he.reflects.alike (hkinds ▸ he'.reflects) hsame

/-- The outputs of a grouping show values that are equal to what its inputs give, and that were given
by inputs that were in the group since it was made. -/
theorem shown_of_lives (hc : reader.Lives (.new keys collectors) c) :
    Shown keys collectors c := by
  have hk := kept_of_lives hc
  obtain ⟨hb, ha⟩ := hk.books
  refine ⟨hb.known_iff, fun t ht => ha.member ▸ hb.fresh t ht, Chronicle.lives_of_lives hc,
    fun past hpast out hout => ?_, fun c' hc' k k' entry entry' hentry hentry' => ?_⟩
  · have hdrawn := (Chronicle.kept_of_lives hpast).books.drawn
    obtain ⟨k, hkey⟩ := (mem_outputIds_iff hb.sound.groups_distinct).mp (hk.output_iff.mp hout)
    obtain ⟨entry, hentry, hout⟩ := Option.bind_eq_some_iff.mp hkey
    obtain ⟨-, out', hout', hrow⟩ := hb.sound.settled k entry hentry id
    obtain rfl := Option.some.inj (hout.symm.trans hout')
    refine ⟨k, entry, hentry, hout, hb.sound.represents hentry (hdrawn.entry k entry hentry), ?_⟩
    exact hrow.trans (ha.rowOf entry)
  · obtain ⟨hb', ha'⟩ := (kept_of_lives hc').books
    exact hb.sound.alike hb'.sound (ha'.kinds.trans ha.kinds.symm) hentry hentry'

/-- Two coins come that are equal and do not have the same side up, and the first one goes. -/
def departure : List (Cue Coin) :=
  [.tell .left .insert 0, .tell .left .insert 1, .tell .left .retract 0]

/-- Groups that keep coins in every way that there is. -/
def keepers : List (Collector Coin) := [.min, .max, .toSet, .toList].map Coin.gathered

/-- A group of equal coins of which one has gone. -/
theorem shown_of_lives_coins : ∃ c, reader.Lives (.new [Coin.worthOf.run] keepers) c ∧
    c.UpToDate ∧ c.heard.known .left 1 ∧ Shown [Coin.worthOf.run] keepers c := by
  obtain ⟨c, log, hc, hl, hfacts⟩ := Scene.exists_of_play? kept_of_lives
    (valid_coinArena [⟨5, true⟩, ⟨5, false⟩]) (by simp [departure, Cue.Heard, reader])
    (by decide +kernel : ((Scene.born (.new [Coin.worthOf.run] keepers)
      (coinArena [⟨5, true⟩, ⟨5, false⟩])).play? reader outputIds departure).any fun p =>
        (∀ x ∈ p.2.known, x ∈ p.2.fresh) ∧ (.left, 1) ∈ p.2.known)
  obtain ⟨hall, hknown⟩ := of_decide_eq_true hfacts
  exact ⟨c, hc, hl.upToDate hall, (hl.known_iff .left 1).mpr hknown, shown_of_lives hc⟩

/-- A group shows in all columns the side of a coin that has gone, though each coin that it still has
is one with the other side up. -/
theorem departed_coin_shown : ∃ c, reader.Lives (.new [Coin.worthOf.run] keepers) c ∧
    c.UpToDate ∧ (∃ out, c.Output out ∧ c.row out = List.replicate 5 ⟨5, true⟩) ∧
      c.heard.known .left 1 ∧ ∀ t, c.heard.known .left t → c.row t = [⟨5, false⟩] := by
  obtain ⟨c, log, hc, hl, hfacts⟩ := Scene.exists_of_play? kept_of_lives
    (valid_coinArena [⟨5, true⟩, ⟨5, false⟩]) (by simp [departure, Cue.Heard, reader])
    (by decide +kernel : ((Scene.born (.new [Coin.worthOf.run] keepers)
      (coinArena [⟨5, true⟩, ⟨5, false⟩])).play? reader outputIds departure).any fun p =>
        (∀ x ∈ p.2.known, x ∈ p.2.fresh) ∧ p.1.node.outputIds = [2] ∧
          p.1.row 2 = List.replicate 5 ⟨5, true⟩ ∧ p.2.known = [(.left, 1)] ∧
            p.1.row 1 = [⟨5, false⟩])
  obtain ⟨hall, houts, hshown, hknown, hrow⟩ := of_decide_eq_true hfacts
  have hone : ∀ t, c.heard.known .left t ↔ t = 1 := by
    intro t
    rw [hl.known_iff, hknown]
    simp
  refine ⟨c, hc, hl.upToDate hall, ⟨2, ?_, hshown⟩, (hone 1).mpr rfl, fun t ht => ?_⟩
  · exact (kept_of_lives hc).output_iff.mpr (houts ▸ List.mem_singleton_self 2)
  · rw [(hone t).mp ht]
    exact hrow

end GroupNode

end ConstraintScoring
