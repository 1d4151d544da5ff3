import ConstraintScoring.Proofs.Network.Reach

/-!
# Owners and events

At every moment of a session each occupied slot has one owner, queues and the free list name every
tuple once, counters are the numbers of what they count, and what a reader was told of a tuple
follows the protocol.
-/

namespace ConstraintScoring

variable {V S : Type}

namespace NodeKind

variable [Cell V]

/-- The counters of a node are the numbers of what they count. -/
def Counts : NodeKind V S → Prop
  | «exists» n => ∀ l entry, n.lefts.get? l = some entry → entry.count = entry.matched.length
  | group n => ∀ k entry, n.groups.get? k = some entry → entry.size = (n.membersWith k).card
  | _ => True

omit [Cell V] in
/-- No collector makes contributions that are for collectors of other kinds. -/
def Typed : NodeKind V S → Prop
  | group n => ∀ c ∈ n.collectors, ∀ row x, c.contribution.run row = .ok x → x.Fits c.kind
  | _ => True

variable [Std.TransOrd V] [Score S]

/-- A function that the node was given fails with the fault. -/
def Fails (f : Fault) : NodeKind V S → Prop
  | group n => ∃ row, n.member row = .error f
  | score n => ∃ row, n.impactOf row = .error f
  | kind => kind.Raises f

omit [Cell V] [Std.TransOrd V] in
theorem Raises.fails {k : NodeKind V S} {f : Fault} (h : k.Raises f) (ht : k.Typed) :
    k.Fails f ∨ SumFault f ∨ ∃ step, f = .overflow step := by
  cases k with
  | group n =>
      rcases h with h | h | ⟨c, hc, row, x, hx, hbad⟩
      · exact Or.inl h
      · exact Or.inr (Or.inl h)
      · exact absurd (ht c hc row x hx) hbad
  | score n => exact h.imp id Or.inr
  | _ => exact Or.inl h

theorem Books.counts {k : NodeKind V S} {h : Hearing} {ρ : TupleId → Row V} (hb : k.Books h ρ) :
    k.Counts := by
  cases k with
  | «exists» n =>
      have hb : n.Books h ρ := hb
      exact hb.tally.count
  | group n =>
      have hb : n.Books h ρ := hb
      exact fun k entry hk => (hb.sound.entry k entry hk).size
  | _ => trivial

end NodeKind

namespace Moment

/-- The node has the tuple among its outputs or waiting, or its readers are just being told of it. -/
def Owns (m : Moment V S) (id : NodeId) (t : TupleId) : Prop :=
  t ∈ m.net.outs id ∨ t ∈ (m.waiting id).toList ∨ ∃ e rs ts ids, m.phase = .telling id e t rs ts ids

/-- The tuples that were taken from the queue of the node whose turn it is and still wait. -/
def taken (m : Moment V S) : List TupleId :=
  match m.phase with
  | .taken _ ts _ | .telling _ _ _ _ ts _ => ts
  | _ => []

/-- Who owns the tuples of a moment, and what has been told of them. -/
structure Orderly [Cell V] [Score S] (m : Moment V S) : Prop where
  /-- Each occupied slot has one owner, which staged the insertion of its tuple. -/
  owns_iff : ∀ t, m.net.arena.Occupied t → ∀ id, m.Owns id t ↔ m.owner t = id
  outs : ∀ id, (m.net.outs id).Nodup ∧
    ∀ t ∈ m.net.outs id, m.net.arena.Occupied t ∧ (m.net.arena.state t).isActive
  free : m.net.arena.free.Nodup ∧ ∀ t ∈ m.net.arena.free, t < m.net.arena.slots.size
  dead_iff : ∀ t, m.net.arena.state t = .dead ↔
    ¬m.net.arena.Occupied t ∨ ∃ id rs ts ids, m.phase = .telling id .retract t rs ts ids
  live : m.net.arena.live =
    ((List.range m.net.arena.slots.size).filter fun t => decide (m.net.arena.Occupied t)).length
  queue : ∀ id, (m.net.queue id).toList.Nodup ∧
    ∀ t ∈ (m.net.queue id).toList, m.net.arena.Occupied t ∧ m.owner t = id
  queued_iff : ∀ t, t ∉ m.taken →
    ((∃ id, t ∈ (m.net.queue id).toList) ↔ (m.net.arena.state t).isPending)
  log : ∀ r t, ∃ known, Protocol (m.log r t) known ∧
    (known = true → m.net.arena.Occupied t ∧ r ∈ m.net.routesOf (m.owner t))
  /-- What is told of a tuple is all that was staged of it, and told to a node that reads. -/
  telling : ∀ id e t r rs ts ids, m.phase = .telling id e t (r :: rs) ts ids →
    m.net.arena.state t = e.announced ∧ (m.net.kindAt r.node).isReader
  /-- Nobody knows a tuple that was taken back before it was seen. -/
  aborting : ∀ t, m.net.arena.state t = .aborting → ∀ r, Protocol (m.log r t) false
  counts : ∀ id, (m.net.kindAt id).Counts
  balances : m.net.ledger.Balances m.net.bags

namespace Sound

variable [Cell V] [Std.TransOrd V] [Score S] {net₀ : Network V S} {width : NodeId → Nat}
  {m : Moment V S} {id : NodeId} {t : TupleId} {r : Route}

omit [Cell V] [Std.TransOrd V] [Score S] in
theorem telling?_eq_some (h : m.telling? = some t) :
    ∃ id e rs ts ids, m.phase = .telling id e t rs ts ids := by
  unfold telling? at h
  split at h
  · rename_i id e t' rs ts ids hp
    obtain rfl := Option.some.inj h
    exact ⟨id, e, rs, ts, ids, hp⟩
  · cases h

theorem announced {e : Event} {rs : List Route} {ts : List TupleId} {ids : List NodeId}
    (h : Sound net₀ width m) (hp : m.phase = .telling id e t rs ts ids) : m.Announced id e t rs := by
  have hphase := h.phase
  simp only [InPhase, hp] at hphase
  exact hphase.2.2

/-- What waits at a node is in its queue, or was taken from it and the queue is empty. -/
theorem waiting_eq (h : Sound net₀ width m) (id : NodeId) : m.waiting id = m.net.queue id ∨
    m.net.queue id = #[] ∧ (m.waiting id).toList = m.taken := by
  have htaken : ∀ {i : NodeId} (ts : List TupleId) {ids : List NodeId},
      (∃ before, m.net.order = before ++ i :: ids) → m.Settled ids →
      m.waiting = Function.update m.net.queue i ts.toArray → m.taken = ts →
      m.waiting id = m.net.queue id ∨ m.net.queue id = #[] ∧ (m.waiting id).toList = m.taken := by
    rintro i _ ids ⟨before, horder⟩ hsettled hwaiting rfl
    rw [hwaiting]
    by_cases hi : id = i
    · subst hi
      rw [Function.update_self]
      exact Or.inr ⟨queue_taken horder hsettled, List.toList_toArray⟩
    · exact Or.inl (Function.update_of_ne hi _ _)
  have hphase := h.phase
  cases hp : m.phase with
  | taken i ts ids =>
      simp only [InPhase, hp] at hphase
      exact htaken ts hphase.1 hphase.2 (by simp only [waiting, hp]) (by simp only [taken, hp])
  | telling i e x rs ts ids =>
      simp only [InPhase, hp] at hphase
      exact htaken ts hphase.1 hphase.2.1 (by simp only [waiting, hp])
        (by simp only [taken, hp])
  | _ =>
      left
      simp only [waiting, hp]

theorem owns_iff (h : Sound net₀ width m) (ht : m.net.arena.Occupied t) :
    m.Owns id t ↔ m.owner t = id := by
  constructor
  · rintro (hout | hwaits | ⟨e, rs, ts, ids, hp⟩)
    · exact h.holdings.owner_out id t hout
    · exact h.holdings.owner_waiting id t hwaits
    · exact (h.announced hp).owner
  · rintro rfl
    rcases h.holdings.covered t ht with hout | hwaits | htold
    · exact Or.inl hout
    · exact Or.inr (Or.inl hwaits)
    · obtain ⟨id, e, rs, ts, ids, hp⟩ := telling?_eq_some htold
      obtain rfl := (h.announced hp).owner
      exact Or.inr (Or.inr ⟨e, rs, ts, ids, hp⟩)

/-- A tuple waits somewhere if a change of it is staged. -/
theorem waits_iff (h : Sound net₀ width m) (t : TupleId) :
    (∃ id, t ∈ (m.waiting id).toList) ↔ (m.net.arena.state t).isPending := by
  constructor
  · rintro ⟨id, hwaits⟩
    exact (h.holdings.tended id).queue_pending t hwaits
  · intro hpending
    have hocc : m.net.arena.Occupied t := h.holdings.valid.occupied_of_state fun hdead => by
      rw [hdead] at hpending
      cases hpending
    rcases h.holdings.covered t hocc with hout | hwaits | htold
    · exact ⟨m.owner t, (h.holdings.tended (m.owner t)).queued t hout hpending⟩
    · exact ⟨m.owner t, hwaits⟩
    · obtain ⟨id, e, rs, ts, ids, hp⟩ := telling?_eq_some htold
      rw [(h.announced hp).state] at hpending
      cases e <;> cases hpending

theorem queued_iff (h : Sound net₀ width m) (ht : t ∉ m.taken) :
    (∃ id, t ∈ (m.net.queue id).toList) ↔ (m.net.arena.state t).isPending := by
  rw [← h.waits_iff]
  refine exists_congr fun id => ?_
  rcases h.waiting_eq id with heq | ⟨hempty, htaken⟩
  · rw [heq]
  · rw [hempty, htaken]
    exact iff_of_false List.not_mem_nil ht

theorem dead_iff (h : Sound net₀ width m) (t : TupleId) : m.net.arena.state t = .dead ↔
    ¬m.net.arena.Occupied t ∨ ∃ id rs ts ids, m.phase = .telling id .retract t rs ts ids := by
  constructor
  · intro hdead
    by_cases hocc : m.net.arena.Occupied t
    · rcases h.holdings.covered t hocc with hout | hwaits | htold
      · have hactive := (h.holdings.tended _).active t hout
        rw [hdead] at hactive
        cases hactive
      · have hpending := (h.holdings.tended _).queue_pending t hwaits
        rw [hdead] at hpending
        cases hpending
      · obtain ⟨id, e, rs, ts, ids, hp⟩ := telling?_eq_some htold
        have hstate := (h.announced hp).state
        rw [hdead] at hstate
        cases e with
        | retract => exact Or.inr ⟨id, rs, ts, ids, hp⟩
        | insert | update => cases hstate
    · exact Or.inl hocc
  · rintro (hocc | ⟨id, rs, ts, ids, hp⟩)
    · by_contra hdead
      exact hocc (h.holdings.valid.occupied_of_state hdead)
    · exact (h.announced hp).state

/-- Who knows a tuple has seen it. -/
theorem not_knows (h : Sound net₀ width m) (ht : m.net.arena.state t = .aborting) : ¬m.Knows r t := by
  intro hknows
  have htold := hknows.2.2
  cases hp : m.phase with
  | telling id e x rs ts ids =>
      have hstate := (h.announced hp).state
      have hne : t ≠ x := by
        rintro rfl
        rw [ht] at hstate
        cases e <;> cases hstate
      cases e <;> simp [Told, hp, hne, ht, TupleState.isSeen] at htold
  | _ => simp [Told, hp, ht, TupleState.isSeen] at htold

theorem orderly (h : Sound net₀ width m) (hw : Network.Wired net₀ width) : m.Orderly where
  owns_iff _ ht _ := h.owns_iff ht
  outs id := ⟨(h.holdings.tended id).nodup, fun t ht =>
    ⟨h.holdings.occupied_out ht, (h.holdings.tended id).active t ht⟩⟩
  free := ⟨h.holdings.valid.free_nodup, h.holdings.valid.free_lt⟩
  dead_iff := h.dead_iff
  live := h.holdings.valid.live_eq_length
  queue id := by
    rcases h.waiting_eq id with heq | ⟨hempty, -⟩
    · rw [← heq]
      exact ⟨(h.holdings.tended id).queue_nodup, fun t ht =>
        ⟨h.holdings.occupied_waiting ht, h.holdings.owner_waiting id t ht⟩⟩
    · rw [hempty]
      exact ⟨List.nodup_nil, fun t ht => absurd ht List.not_mem_nil⟩
  queued_iff _ ht := h.queued_iff ht
  log r t := by
    obtain ⟨known, hprotocol, hknows⟩ := h.log r t
    exact ⟨known, hprotocol, fun hk => ⟨(hknows.mp hk).1, (hknows.mp hk).2.1⟩⟩
  telling id e t r rs ts ids hp := ⟨(h.announced hp).state, (h.ready hw hp).reader⟩
  aborting t ht r := by
    obtain ⟨known, hprotocol, hknows⟩ := h.log r t
    cases known with
    | true => exact absurd (hknows.mp rfl) (h.not_knows ht)
    | false => exact hprotocol
  counts id := (h.books id).counts
  balances := h.balances

end Sound

end Moment

end ConstraintScoring
