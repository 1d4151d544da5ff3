import ConstraintScoring.Proofs.Network.Sound

/-!
# Steps that only move tuples

Beginning and ending a call, taking the queue of a node, and beginning and ending to tell of a tuple
keep a moment sound: no node has heard of anything new.
-/

namespace ConstraintScoring

variable {V S : Type}

namespace Network

variable {net net' : Network V S} {id : NodeId} {t : TupleId}

theorem ends_takeQueue {q : Array TupleId} (h : Ends (takeQueue id) net q net') :
    q = net.queue id ∧ net' = { net with queues := net.queues.setIfInBounds id #[] } := by
  have h : (Except.ok (net.queue id), { net with queues := net.queues.setIfInBounds id #[] }) =
    (Except.ok q, net') := h
  obtain ⟨hq, rfl⟩ := Prod.mk.inj h
  exact ⟨(Except.ok.inj hq).symm, rfl⟩

theorem ends_beginTuple {e : Option Event} (h : Ends (beginTuple t) net e net') :
    net.arena.begin t = (e, net'.arena) ∧ net' = { net with arena := net'.arena } := by
  have h : (Except.ok (net.arena.begin t).1, { net with arena := (net.arena.begin t).2 }) =
    (Except.ok e, net') := h
  obtain ⟨he, rfl⟩ := Prod.mk.inj h
  exact ⟨Prod.ext (Except.ok.inj he) rfl, rfl⟩

theorem ends_releaseTuple (h : Ends (releaseTuple t) net () net') :
    net' = { net with arena := net.arena.release t } := by
  have h : (Except.ok (), { net with arena := net.arena.release t }) = (Except.ok (), net') := h
  exact (Prod.mk.inj h).2.symm

theorem mem_sourcesOf {type : String} :
    id ∈ net.sourcesOf type ↔ ∃ n, net.kindAt id = .source n ∧ n.type = type := by
  have hiff : net.isSourceOf type id ↔ ∃ n, net.kindAt id = .source n ∧ n.type = type := by
    unfold isSourceOf kindAt
    cases hnode : net.nodes[id]? with
    | none => simp
    | some node =>
        obtain ⟨decl, rank, children, kind⟩ := node
        cases kind <;> simp
  unfold sourcesOf
  rw [List.mem_filter, List.mem_range, hiff]
  refine and_iff_right_of_imp fun ⟨n, hn, _⟩ => lt_of_kindAt hn rfl

theorem sourcesOf_nodup (net : Network V S) (type : String) : (net.sourcesOf type).Nodup :=
  List.nodup_range.filter _

theorem queue_setEmpty (net : Network V S) (id j : NodeId) :
    { net with queues := net.queues.setIfInBounds id #[] }.queue j =
      if j = id then #[] else net.queue j := by
  unfold queue
  by_cases hj : j = id
  · subst hj
    by_cases hlt : j < net.queues.size <;> simp [hlt]
  · simp [hj, Ne.symm hj, Array.getD_eq_getD_getElem?]

theorem Quiet.of_arena (net : Network V S) (a : Arena V) : Quiet net { net with arena := a } :=
  ⟨rfl, rfl, rfl, rfl, rfl, rfl⟩

end Network

namespace FactChange

variable [Cell V] [Std.TransOrd V] {facts : Table (FactKey V) V}

theorem get?_after (c : FactChange) (hd : facts.Distinct) {f : Fact V} {k : FactKey V}
    (hk : (f.key == k) = false) : (c.after facts f).get? k = facts.get? k := by
  cases c with
  | insert => exact Table.get?_insert_other facts f.cell hk
  | update => exact Table.get?_insert_other facts f.cell hk
  | retract =>
      refine (hd.get?_erase f.key k).trans (if_neg ?_)
      simp [hk]

omit [Std.TransOrd V] in
theorem distinct_after (c : FactChange) (hd : facts.Distinct) (f : Fact V) :
    (c.after facts f).Distinct := by
  cases c with
  | insert => exact hd.insert _ _
  | update => exact hd.insert _ _
  | retract => exact hd.erase _

end FactChange

namespace Moment.Sound

variable [Cell V] [Std.TransOrd V] [Score S] {net₀ : Network V S} {width : NodeId → Nat}
  {m : Moment V S} {net : Network V S} {id : NodeId} {t : TupleId} {ts : List TupleId}
  {ids : List NodeId} {e : Event} {c : FactChange} {f : Fact V}

/-- A step that changes the phase only. -/
theorem rephase {phase : Phase V} (h : Sound net₀ width m)
    (hwaiting : { m with phase }.waiting = m.waiting)
    (htelling : { m with phase }.telling? = m.telling?)
    (htold : ∀ r t, { m with phase }.Told r t ↔ m.Told r t)
    (hcurrent : ∀ r t, { m with phase }.Current r t ↔ m.Current r t)
    (hfacts : ∀ id n, m.net.kindAt id = .source n → ∀ k, k.type = n.type →
      ({ m with phase }.factsFor id).get? k = (m.factsFor id).get? k)
    (hphase : { m with phase }.InPhase) : Sound net₀ width { m with phase } := by
  have hknows : ∀ r t, m.Knows r t ↔ { m with phase }.Knows r t := fun r t =>
    and_congr_right fun _ => and_congr_right fun _ => (htold r t).symm
  refine h.quiet ⟨rfl, rfl, rfl, rfl, rfl, rfl⟩ rfl rfl ?_ (fun _ ht => ht) (fun _ _ => rfl) hknows
    (fun r t ht => ⟨(hknows r t).mpr ht.1, ht.2.1, (hcurrent r t).mp ht.2.2⟩) h.facts_distinct
    hfacts hphase
  rw [hwaiting, htelling]
  exact h.holdings

theorem change (h : Sound net₀ width m) (hp : m.phase = .rest) (hallowed : c.Allowed m.facts f) :
    Sound net₀ width { m with phase := .staging c f (m.net.sourcesOf f.type) } := by
  refine h.rephase ?_ ?_ ?_ ?_ ?_ ⟨hallowed, m.net.sourcesOf_nodup _, fun id hid => ?_⟩
  · simp only [waiting, hp]
  · simp only [telling?, hp]
  · intro r t
    simp only [Told, hp]
  · intro r t
    simp only [Current, hp]
  · intro id n hn k hk
    simp only [factsFor, hp]
    split
    · rfl
    · rename_i hid
      refine c.get?_after h.facts_distinct ?_
      cases hfk : f.key == k with
      | false => rfl
      | true =>
          have htype := (factKey_beq_iff.mp hfk).1
          exact absurd (Network.mem_sourcesOf.mpr ⟨n, hn, hk.symm.trans htype.symm⟩) hid
  · exact Network.mem_sourcesOf.mp hid

theorem noted (h : Sound net₀ width m) (hp : m.phase = .staging c f []) :
    Sound net₀ width { m with facts := c.after m.facts f, phase := .rest } := by
  have hknows : ∀ r t, m.Knows r t ↔
      { m with facts := c.after m.facts f, phase := .rest }.Knows r t := by
    intro r t
    simp only [Knows, Told, hp]
  refine h.quiet ⟨rfl, rfl, rfl, rfl, rfl, rfl⟩ rfl rfl ?_ (fun _ ht => ht) (fun _ _ => rfl) hknows
    (fun r t ht => ⟨(hknows r t).mpr ht.1, ht.2.1, by simp only [Current, hp]⟩)
    (c.distinct_after h.facts_distinct f) ?_ trivial
  · have hh := h.holdings
    simp only [waiting, telling?, hp] at hh ⊢
    exact hh
  · intro id n _ k _
    simp only [factsFor, hp, List.not_mem_nil, if_false]

theorem settle (h : Sound net₀ width m) (hp : m.phase = .rest) :
    Sound net₀ width { m with phase := .settling m.net.order } := by
  refine h.rephase ?_ ?_ ?_ ?_ ?_ ⟨[], rfl, by simp⟩
  · simp only [waiting, hp]
  · simp only [telling?, hp]
  · intro r t
    simp only [Told, hp]
  · intro r t
    simp only [Current, hp]
  · intro id n _ k _
    simp only [factsFor, hp]

theorem settled (h : Sound net₀ width m) (hp : m.phase = .settling []) :
    Sound net₀ width { m with phase := .rest } := by
  refine h.rephase ?_ ?_ ?_ ?_ ?_ trivial
  · simp only [waiting, hp]
  · simp only [telling?, hp]
  · intro r t
    simp only [Told, hp]
  · intro r t
    simp only [Current, hp]
  · intro id n _ k _
    simp only [factsFor, hp]

theorem take {queue : Array TupleId} (h : Sound net₀ width m) (hp : m.phase = .settling (id :: ids))
    (he : Network.Ends (Network.takeQueue id) m.net queue net) :
    Sound net₀ width { m with net, phase := .taken id queue.toList ids } := by
  obtain ⟨rfl, rfl⟩ := Network.ends_takeQueue he
  have hqueue := Network.queue_setEmpty m.net id
  have hwaiting : Function.update
      { m.net with queues := m.net.queues.setIfInBounds id #[] }.queue id
      (m.net.queue id).toList.toArray = m.net.queue := by
    funext j
    rw [Function.update_apply, hqueue]
    split
    · rename_i hj
      rw [hj, Array.toArray_toList]
    · rfl
  have hphase := h.phase
  simp only [InPhase, hp] at hphase
  obtain ⟨before, horder, hempty⟩ := hphase
  have hknows : ∀ r t, m.Knows r t ↔ { m with
      net := { m.net with queues := m.net.queues.setIfInBounds id #[] },
      phase := .taken id (m.net.queue id).toList ids }.Knows r t := by
    intro r t
    simp only [Knows, Told, hp]
    rfl
  refine h.quiet ⟨rfl, rfl, rfl, rfl, Array.size_setIfInBounds, rfl⟩ rfl rfl ?_ (fun _ ht => ht)
    (fun _ _ => rfl) hknows
    (fun r t ht => ⟨(hknows r t).mpr ht.1, ht.2.1, by simp only [Current, hp]⟩) h.facts_distinct
    (fun _ _ _ _ _ => by simp only [factsFor, hp]) ⟨⟨before, horder⟩, before ++ [id], ?_, ?_⟩
  · have hh := h.holdings
    simp only [waiting, telling?, hp] at hh ⊢
    rw [hwaiting]
    exact hh
  · rw [List.append_assoc]
    exact horder
  · intro i hi
    refine (hqueue i).trans ?_
    split
    · rfl
    · rename_i hne
      exact hempty i ((List.mem_append.mp hi).resolve_right fun hi => hne (List.mem_singleton.mp hi))

omit [Cell V] [Std.TransOrd V] [Score S] in
/-- The queue of a node that is being emptied was taken, and so were those before it. -/
theorem queues_taken {before : List NodeId} (ho : m.net.order = before ++ id :: ids)
    (hs : m.Settled ids) : ∀ p ∈ before ++ [id], m.net.queue p = #[] := by
  obtain ⟨before', ho', hempty⟩ := hs
  have hsplit : before' ++ ids = (before ++ [id]) ++ ids := by
    rw [← ho', ho, List.append_assoc]
    rfl
  rwa [← List.append_cancel_right hsplit]

omit [Cell V] [Std.TransOrd V] [Score S] in
theorem queue_taken {before : List NodeId} (ho : m.net.order = before ++ id :: ids)
    (hs : m.Settled ids) : m.net.queue id = #[] :=
  queues_taken ho hs id (List.mem_append_right _ (List.mem_singleton_self id))

theorem pass (h : Sound net₀ width m) (hp : m.phase = .taken id [] ids) :
    Sound net₀ width { m with phase := .settling ids } := by
  have hphase := h.phase
  simp only [InPhase, hp] at hphase
  obtain ⟨⟨before, ho⟩, hs⟩ := hphase
  refine h.rephase ?_ ?_ ?_ ?_ ?_ hs
  · simp only [waiting, hp]
    exact (Function.update_eq_self_iff.mpr (queue_taken ho hs).symm).symm
  · simp only [telling?, hp]
  · intro r t
    simp only [Told, hp]
  · intro r t
    simp only [Current, hp]
  · intro id n _ k _
    simp only [factsFor, hp]

/-- The tuple at the head of a queue that was taken. -/
theorem next (h : Sound net₀ width m) (hp : m.phase = .taken id (t :: ts) ids) :
    Holdings.Next m.net.arena m.net.outs m.waiting m.owner id t ts := by
  have hh := h.holdings
  simp only [telling?, hp] at hh
  refine ⟨hh, ?_⟩
  simp only [waiting, hp, Function.update_self]

theorem skip (h : Sound net₀ width m) (hp : m.phase = .taken id (t :: ts) ids)
    (he : Network.Ends (Network.beginTuple t) m.net none net) :
    Sound net₀ width { m with net, phase := .taken id ts ids } := by
  obtain ⟨hbegin, hnet⟩ := Network.ends_beginTuple he
  have hnext := h.next hp
  obtain ⟨hocc, hpending, -, -⟩ := hnext.head
  obtain ⟨hstate, harena⟩ := Arena.begin_eq_none hpending hbegin
  rw [harena] at hnet
  subst hnet
  have hoccupied : ∀ x, (m.net.arena.release t).Occupied x → m.net.arena.Occupied x ∧ x ≠ t :=
    fun x => (Arena.occupied_release x).mp
  have hother : ∀ x, x ≠ t → (m.net.arena.release t).state x = m.net.arena.state x := fun x hx => by
    rw [Arena.state_release hocc.1, if_neg hx]
  have hknows : ∀ r x, m.Knows r x ↔ { m with
      net := { m.net with arena := m.net.arena.release t }, phase := .taken id ts ids }.Knows r x := by
    intro r x
    simp only [Knows, Told, hp]
    by_cases hxt : x = t
    · subst hxt
      simp [hstate, TupleState.isSeen, Arena.occupied_release]
    · rw [hother x hxt, Arena.occupied_release, and_iff_left hxt]
      rfl
  have hphase := h.phase
  simp only [InPhase, hp] at hphase
  refine h.quiet (.of_arena _ _) rfl rfl ?_ (fun x hx => (hoccupied x hx).1)
    (fun x hx => Arena.row_release_other (hoccupied x hx).2) hknows (fun r x hx => ?_)
    h.facts_distinct (fun _ _ _ _ _ => by simp only [factsFor, hp]) hphase
  · have hh := hnext.begin_none hbegin
    rw [harena] at hh
    simp only [waiting, hp, Function.update_idem] at hh
    exact hh
  · refine ⟨(hknows r x).mpr hx.1, ?_, by simp only [Current, hp]⟩
    rw [← hother x (hoccupied x hx.1.1).2]
    exact hx.2.1

theorem begin {e : Event} (h : Sound net₀ width m) (hp : m.phase = .taken id (t :: ts) ids)
    (he : Network.Ends (Network.beginTuple t) m.net (some e) net) :
    Sound net₀ width { m with net, phase := .telling id e t (net.routesOf id) ts ids } := by
  obtain ⟨hbegin, hnet⟩ := Network.ends_beginTuple he
  have hnext := h.next hp
  obtain ⟨hocc, hpending, -, howner⟩ := hnext.head
  obtain ⟨hstate, harena⟩ := Arena.begin_eq_some.mp hbegin
  rw [harena] at hnet
  subst hnet
  have hself : (m.net.arena.setState t e.announced).state t = e.announced := by
    rw [Arena.state_setState hocc.1, if_pos rfl]
  have hother : ∀ x, x ≠ t →
      (m.net.arena.setState t e.announced).state x = m.net.arena.state x := fun x hx => by
    rw [Arena.state_setState hocc.1, if_neg hx]
  have hknows : ∀ r x, m.Knows r x ↔ { m with
      net := { m.net with arena := m.net.arena.setState t e.announced },
      phase := .telling id e t (m.net.routesOf id) ts ids }.Knows r x := by
    intro r x
    simp only [Knows, Told, hp, Arena.occupied_setState]
    by_cases hxt : x = t
    · subst hxt
      rw [howner, hstate]
      cases e <;> simp [Event.staged, TupleState.isSeen, Network.routesOf]
    · rw [hother x hxt]
      cases e <;> simp [hxt, Network.routesOf]
  have hphase := h.phase
  simp only [InPhase, hp] at hphase
  refine h.quiet (.of_arena _ _) rfl rfl ?_ (fun x hx => (Arena.occupied_setState x).mp hx)
    (fun x _ => Arena.row_setState x) hknows (fun r x hx => ?_) h.facts_distinct
    (fun _ _ _ _ _ => by simp only [factsFor, hp]) ⟨hphase.1, hphase.2, ?_⟩
  · have hh := hnext.begin_some hbegin
    rw [harena] at hh
    simp only [waiting, hp, Function.update_idem] at hh
    exact hh
  · refine ⟨(hknows r x).mpr hx.1, ?_, by simp only [Current, hp]⟩
    have hxt : x ≠ t := by
      rintro rfl
      refine hx.2.2 rfl ?_
      have hr := hx.1.2.1
      rwa [howner] at hr
    rw [← hother x hxt]
    exact hx.2.1
  · refine ⟨howner, (Arena.occupied_setState t).mpr hocc, hself, ⟨[], rfl⟩, fun hne => ?_,
      fun heq => ⟨fun j hj => ?_, fun j hj => ?_⟩⟩
    · refine hnext.out_iff.mpr ?_
      rw [hstate]
      cases e with
      | insert => rfl
      | update => rfl
      | retract => exact absurd rfl hne
    · have ha := (h.holdings.tended j).active t hj
      rw [hstate, heq] at ha
      cases ha
    · have hnot := hnext.not_waiting j
      simp only [waiting, hp, Function.update_idem] at hnot
      exact hnot hj

theorem told (h : Sound net₀ width m) (hp : m.phase = .telling id e t [] ts ids)
    (hne : e ≠ .retract) : Sound net₀ width { m with phase := .taken id ts ids } := by
  have hphase := h.phase
  simp only [InPhase, hp] at hphase
  obtain ⟨ho, hs, hann⟩ := hphase
  have hseen : (m.net.arena.state t).isSeen := by
    rw [hann.state]
    cases e with
    | insert => rfl
    | update => rfl
    | retract => exact absurd rfl hne
  have hknows : ∀ r x, m.Knows r x ↔ { m with phase := .taken id ts ids }.Knows r x := by
    intro r x
    simp only [Knows, Told, hp]
    by_cases hxt : x = t
    · subst hxt
      cases e <;> simp [hseen] at hne ⊢
    · cases e <;> simp [hxt]
  refine h.quiet ⟨rfl, rfl, rfl, rfl, rfl, rfl⟩ rfl rfl ?_ (fun _ hx => hx) (fun _ _ => rfl) hknows
    (fun r x hx => ⟨(hknows r x).mpr hx.1, hx.2.1, by simp [Current, hp]⟩) h.facts_distinct
    (fun _ _ _ _ _ => by simp only [factsFor, hp]) ⟨ho, hs⟩
  have hh := h.holdings
  simp only [waiting, telling?, hp] at hh ⊢
  refine hh.told_out ?_
  rw [hann.owner]
  exact hann.out hne

theorem drop (h : Sound net₀ width m) (hp : m.phase = .telling id .retract t [] ts ids)
    (he : Network.Ends (Network.releaseTuple t) m.net () net) :
    Sound net₀ width { m with net, phase := .taken id ts ids } := by
  obtain rfl := Network.ends_releaseTuple he
  have hphase := h.phase
  simp only [InPhase, hp] at hphase
  obtain ⟨ho, hs, hann⟩ := hphase
  have hocc := hann.occupied
  have hoccupied : ∀ x, (m.net.arena.release t).Occupied x → m.net.arena.Occupied x ∧ x ≠ t :=
    fun x => (Arena.occupied_release x).mp
  have hother : ∀ x, x ≠ t → (m.net.arena.release t).state x = m.net.arena.state x := fun x hx => by
    rw [Arena.state_release hocc.1, if_neg hx]
  have hknows : ∀ r x, m.Knows r x ↔ { m with
      net := { m.net with arena := m.net.arena.release t }, phase := .taken id ts ids }.Knows r x := by
    intro r x
    simp only [Knows, Told, hp]
    by_cases hxt : x = t
    · subst hxt
      simp [Arena.occupied_release]
    · rw [hother x hxt, Arena.occupied_release, and_iff_left hxt, if_neg hxt]
      rfl
  refine h.quiet (.of_arena _ _) rfl rfl ?_ (fun x hx => (hoccupied x hx).1)
    (fun x hx => Arena.row_release_other (hoccupied x hx).2) hknows (fun r x hx => ?_)
    h.facts_distinct (fun _ _ _ _ _ => by simp only [factsFor, hp]) ⟨ho, hs⟩
  · have hh := h.holdings
    have hgone := (hann.gone rfl).2
    simp only [waiting, telling?, hp] at hh hgone ⊢
    exact hh.told_release hocc (hann.gone rfl).1 hgone
  · have hxt := (hoccupied x hx.1.1).2
    refine ⟨(hknows r x).mpr hx.1, ?_, by simp [Current, hp, hxt]⟩
    rw [← hother x hxt]
    exact hx.2.1

end Moment.Sound

end ConstraintScoring
