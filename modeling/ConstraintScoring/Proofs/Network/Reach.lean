import ConstraintScoring.Proofs.Network.Deliveries

/-!
# Reachable moments

Every moment that the session of a wired network can reach is sound, and a step is stopped by
nothing but a fault of the node that works.
-/

namespace ConstraintScoring

variable {V S : Type}

/-- A network that nothing was done with yet. -/
structure Network.Unused [Score S] (net : Network V S) : Prop where
  arena : net.arena = .empty
  queue : ∀ id, net.queue id = #[]
  blank : ∀ id, (net.kindAt id).blank = net.kindAt id
  balances : net.ledger.Balances fun _ => 0

namespace NodeKind

variable {k : NodeKind V S}

theorem outputIds_of_blank (hk : k.blank = k) : k.outputIds = [] := by
  rw [← hk]
  cases k <;> rfl

theorem bagOf_of_blank (hk : k.blank = k) (c : Nat) : k.bagOf c = 0 := by
  rw [← hk]
  cases k with
  | score n => exact ite_self 0
  | _ => rfl

end NodeKind

namespace Moment

variable [Cell V] [Std.TransOrd V] [Score S] {net₀ : Network V S} {width : NodeId → Nat}
  {m m' : Moment V S} {fault : NetworkFault}

theorem Sound.start (hu : net₀.Unused) : Sound net₀ width (.start net₀) := by
  have hocc : ∀ t, ¬net₀.arena.Occupied t := fun t ht => by
    rw [hu.arena] at ht
    simp [Arena.Occupied, Arena.empty] at ht
  have hknows : ∀ r t, ¬(Moment.start net₀).Knows r t := fun r t ht => hocc t ht.1
  refine ⟨.refl net₀, ?_, fun t ht => absurd ht (hocc t), fun id => ?_,
    fun t ht => absurd ht (hocc t), Table.distinct_empty, fun id n hn => ?_, ?_,
    fun r t => ⟨false, .nil, by simp [hknows r t]⟩, trivial⟩
  · have houts : net₀.outs = fun _ => [] := funext fun id => NodeKind.outputIds_of_blank (hu.blank id)
    have hqueue : net₀.queue = fun _ => #[] := funext hu.queue
    change Holdings net₀.arena net₀.outs net₀.queue _ none
    rw [houts, hqueue, hu.arena]
    exact .empty
  · exact NodeKind.books_of_blank (hu.blank id) fun σ t => hknows ⟨id, σ⟩ t
  · refine SourceNode.reflects_unused ?_
    have hblank := hu.blank id
    rw [show net₀.kindAt id = .source n from hn] at hblank
    exact (congrArg SourceNode.outputs (NodeKind.source.inj hblank)).symm
  · have hbags : net₀.bags = fun _ => 0 := funext fun c =>
      Finset.sum_eq_zero fun id _ => NodeKind.bagOf_of_blank (hu.blank id) c
    change net₀.ledger.Balances net₀.bags
    rw [hbags]
    exact hu.balances

variable [LawfulScore S]

theorem Sound.step (h : Sound net₀ width m) (hw : Network.Wired net₀ width) (hs : Step m m') :
    Sound net₀ width m' := by
  cases hs with
  | change hp hallowed => exact h.change hp hallowed
  | note hp he => exact h.note hw hp he
  | noted hp => exact h.noted hp
  | settle hp => exact h.settle hp
  | take hp he => exact h.take hp he
  | skip hp he => exact h.skip hp he
  | begin hp he => exact h.begin hp he
  | tell hp he => exact h.tell hw hp he
  | told hp hne => exact h.told hp hne
  | drop hp he => exact h.drop hp he
  | pass hp => exact h.pass hp
  | settled hp => exact h.settled hp

theorem Reachable.sound (hr : Reachable net₀ m) (hw : Network.Wired net₀ width) (hu : net₀.Unused) :
    Sound net₀ width m := by
  induction hr with
  | start => exact .start hu
  | step _ hs ih => exact ih.step hw hs

/-- A step is stopped by nothing but a fault of the node that works. -/
theorem Sound.raises (h : Sound net₀ width m) (hw : Network.Wired net₀ width)
    (hs : StoppedBy m fault) : (m.net.kindAt fault.node).Raises fault.fault := by
  unfold StoppedBy at hs
  split at hs
  · rename_i c f id ids hp
    obtain ⟨net', hrun⟩ := hs
    obtain ⟨n, hn, hensures⟩ := h.source_ready hw hp
    have hspec := Network.stageAt_spec hn (hw.like h.like).queues_size hensures
    rw [hrun] at hspec
    obtain ⟨rfl, hraises⟩ := hspec
    rw [hn]
    exact ⟨f, hraises⟩
  · rename_i id e t r rs ts ids hp
    obtain ⟨net', hrun⟩ := hs
    have hspec := h.delivered hw (h.ready hw hp)
    rw [hrun] at hspec
    obtain ⟨hnode, htrips⟩ := hspec
    rw [hnode]
    exact htrips.raises
  · exact hs.elim

end Moment

end ConstraintScoring
