import ConstraintScoring.Proofs.Network.Agreement

/-!
# Networks at rest

Once a network has settled, nothing waits in it: every tuple is an output of one node and its readers
have heard of its row. Settling such a network again does nothing.
-/

namespace ConstraintScoring

variable {V S : Type}

namespace Network

/-- Nothing waits, and every tuple is an output of one node. -/
structure Resting (net : Network V S) : Prop where
  queue : ∀ id, net.queue id = #[]
  nodup : ∀ id, (net.outs id).Nodup
  unique : ∀ id id' t, t ∈ net.outs id → t ∈ net.outs id' → id = id'
  occupied : ∀ t, net.arena.Occupied t ↔ ∃ id, t ∈ net.outs id
  state : ∀ t, net.arena.Occupied t → net.arena.state t = .ok

theorem takeQueue_empty {net : Network V S} {id : NodeId} (h : net.queue id = #[])
    (hid : id < net.queues.size) : (takeQueue id).run.run net = (.ok #[], net) := by
  have hqueues : net.queues.setIfInBounds id #[] = net.queues := by
    refine Array.ext (by simp) fun i hi hi' => ?_
    rw [Array.getElem_setIfInBounds]
    split
    · rename_i heq
      subst heq
      unfold queue at h
      rw [Array.getD_eq_getD_getElem?, Array.getElem?_eq_getElem hid] at h
      exact h.symm
    · rfl
  change (Except.ok (net.queue id), ({ net with queues := net.queues.setIfInBounds id #[] } :
    Network V S)) = _
  rw [h, hqueues]

variable [Cell V] [Score S]

/-- Nodes that nothing waits at have nothing to tell. -/
theorem settleAll_empty {net : Network V S} {ids : List NodeId} (h : ∀ id, net.queue id = #[])
    (hids : ∀ id ∈ ids, id < net.queues.size) : (settleAll ids).run.run net = (.ok 0, net) := by
  induction ids with
  | nil => rfl
  | cons id ids ih =>
      have hnode : (settleNode id : Run V S Nat).run.run net = (.ok 0, net) := by
        unfold settleNode
        rw [Outcome.run_bind, takeQueue_empty (h id) (hids id List.mem_cons_self)]
        rfl
      have hrest := ih fun id hid => hids id (List.mem_cons_of_mem _ hid)
      unfold settleAll
      rw [Outcome.run_bind, hnode]
      simp only
      rw [Outcome.run_bind, hrest]
      rfl

/-- A network at rest has nothing to settle. -/
theorem Resting.settle {net : Network V S} (h : net.Resting)
    (horder : ∀ id ∈ net.order, id < net.queues.size) :
    Network.settle.run.run net = (.ok 0, net) :=
  settleAll_empty h.queue horder

end Network

namespace Moment

variable [Cell V] [Std.TransOrd V] [Score S] {net₀ : Network V S} {width : NodeId → Nat}
  {m : Moment V S}

/-- A network that nothing waits in is at rest. -/
theorem Sound.resting (h : Sound net₀ width m) (hi : m.Idle) : m.net.Resting := by
  have hout : ∀ t, m.net.arena.Occupied t → t ∈ m.net.outs (m.owner t) := fun t ht =>
    h.of_done (hi.done _) ht rfl
  refine ⟨hi.2, fun id => (h.holdings.tended id).nodup, fun id id' t ht ht' => ?_, fun t =>
    ⟨fun ht => ⟨_, hout t ht⟩, fun ⟨id, ht⟩ => h.holdings.occupied_out ht⟩, fun t ht => ?_⟩
  · exact (h.holdings.owner_out id t ht).symm.trans (h.holdings.owner_out id' t ht')
  · exact h.state_of_done (hi.done _) (hout t ht)

end Moment

end ConstraintScoring
