import ConstraintScoring.Proofs.Network.Paths
import ConstraintScoring.Proofs.Session.Relational

/-!
# One pass settles everything

Nodes come after their parents, and settling gives each of them one turn. What was staged at a node
when its turn came is told once along every path of bridges, and to nobody whose turn is over. So one
pass is enough: settling again does nothing.
-/

namespace ConstraintScoring

variable {V S : Type} [Cell V] [Score S]

/-- The change that a delivery tells of waits at the node. -/
def Network.Waits (net : Network V S) (id : NodeId) (d : Delivery) : Prop :=
  d.tuple ∈ (net.queue id).toList ∧ net.arena.state d.tuple = d.event.staged

omit [Cell V] [Score S] in
theorem Network.mem_deliveries {net : Network V S} {id : NodeId} {d : Delivery} :
    d ∈ net.spread id (net.changes (net.queue id).toList) ↔
      net.Waits id d ∧ d.route ∈ net.routesOf id :=
  mem_spread.trans (and_congr_left fun _ => mem_changes)

theorem Network.TakesTurns.nodes {net net' : Network V S} {ids : List NodeId}
    {rounds : List (Round V S)} (h : TakesTurns net ids rounds net') : rounds.map (·.node) = ids := by
  induction h with
  | nil => rfl
  | cons _ _ _ ih => exact congrArg (List.cons _) ih

namespace Moment.Complete

variable [Std.TransOrd V] [LawfulScore S] {g : DeclarationGraph V S} {domain : DomainModel V}
  {net₀ : Network V S} {round : Round V S} {d : Delivery}

/-- What waits at a node when its turn has come is told once along each path of bridges. -/
theorem delivers (h : Complete net₀ round) (hc : Network.Compiled g domain net₀)
    (hf : Formed g.declarations) : round.deliveries.Nodup ∧ ∀ d, d ∈ round.deliveries ↔
      round.before.Waits round.node d ∧ ∃ path, net₀.Path round.node path d.route.node ∧
        net₀.sideAlong path = d.route.side := by
  obtain ⟨⟨m, ids, hm, hbefore, hphase⟩, hdeliveries⟩ := h
  have hw := hc.wired hf
  have hsound := hm.sound hw hc.unused
  have hwaiting : m.waiting round.node = round.before.queue round.node := by
    unfold waiting
    rw [hphase, hbefore]
  have hroutes : round.before.routesOf round.node = net₀.routesOf round.node :=
    hbefore ▸ hsound.like.routesOf round.node
  rw [hdeliveries]
  constructor
  · refine Network.spread_nodup (Network.changes_nodup ?_) (hroutes ▸ hw.routes_nodup round.node)
    exact hwaiting ▸ (hsound.holdings.tended round.node).queue_nodup
  · intro d
    rw [Network.mem_deliveries, hroutes]
    refine and_congr_right fun hwaits => hc.mem_routesOf_iff hf ?_
    have hqueued : d.tuple ∈ (m.waiting round.node).toList := hwaiting ▸ hwaits.1
    have hmaker := hsound.maker d.tuple (hsound.holdings.occupied_waiting hqueued)
    rw [hsound.holdings.owner_waiting round.node d.tuple hqueued, hsound.like.isBridge] at hmaker
    exact Bool.eq_false_iff.mp hmaker

/-- The readers of a node have their turns later. -/
theorem later (h : Complete net₀ round) {width : NodeId → Nat} (hw : Network.Wired net₀ width)
    (hu : net₀.Unused) (hd : d ∈ round.deliveries) {before after : List NodeId}
    (horder : net₀.order = before ++ round.node :: after) : d.route.node ∈ after := by
  obtain ⟨⟨m, ids, hm, hbefore, -⟩, hdeliveries⟩ := h
  have hlike := (hm.sound hw hu).like
  rw [hdeliveries, Network.mem_deliveries, ← hbefore, hlike.routesOf] at hd
  exact hw.later round.node d.route before after hd.2 horder

end Moment.Complete

namespace Session

variable [Std.TransOrd V] [LawfulScore S] {N : Naming V} {settings : FactorySettings S}
  {domain : DomainModel V} {written : List (Written V S)} {chosen : List Constraint}
  {f : SessionFactory V S} {s : Session V S} {net : Network V S} {k : Nat}

/-- Nodes have greater ranks than their parents, and settling a session gives every node one turn.
All changes that wait at the node by then are told once along each path of bridges to a reader, on
the side that the last fore bridge says, and nobody is told of anything after its own turn. Nothing
waits afterwards, and settling again changes nothing. -/
theorem settled_in_one_pass (hf : f.ProvidedBy N settings domain written chosen) (hs : Reached f s)
    (husable : s.poisoned = false) (hrun : Network.settle.run.run s.network = (.ok k, net)) :
    ∃ net₀, Network.compile f.graph f.domain = .ok net₀ ∧
      (∀ (id : NodeId) a d, net₀.nodes[id]? = some a → f.graph.declarations[a.decl]? = some d →
        ∀ p ∈ d.parents, ∃ (j : NodeId) (b : NetworkNode V S),
          net₀.nodes[j]? = some b ∧ b.decl = p ∧ b.rank < a.rank) ∧
      (∃ rounds, Network.TakesTurns s.network s.network.order rounds net ∧
        (rounds.map (·.node)).Perm (List.range net₀.nodes.size) ∧
        k = (rounds.map (·.changes)).sum ∧
        (∀ round ∈ rounds, round.deliveries.Nodup ∧ ∀ d, d ∈ round.deliveries ↔
          round.before.Waits round.node d ∧ ∃ path, net₀.Path round.node path d.route.node ∧
            net₀.sideAlong path = d.route.side) ∧
        ∀ earlier round later, rounds = earlier ++ round :: later → ∀ d ∈ round.deliveries,
          ∀ x ∈ earlier ++ [round], x.node ≠ d.route.node) ∧
      (∀ p path path' reader, ¬net₀.IsBridge p → net₀.Path p path reader →
        net₀.Path p path' reader → net₀.sideAlong path = net₀.sideAlong path' → path = path') ∧
      net.Resting ∧ Network.settle.run.run net = (.ok 0, net) := by
  obtain ⟨-, -, b, ho⟩ := hf.origin
  have hsettles := hs.settles ho.formed husable hrun
  obtain ⟨net₀, hcompiled, -, -, m, hm⟩ := hs.live ho.formed husable
  have hspec := Network.compile_spec hcompiled
  have hw := hspec.wired ho.formed
  have hlike := (hm.reachable.sound hw hspec.unused).like
  rw [hm.net] at hlike
  have hresting := hsettles.resting ho.formed
  have hgoes := Moment.settle_rounds hm.reachable hw hspec.unused hm.phase
  unfold Moment.Goes at hgoes
  rw [hm.net, hrun] at hgoes
  obtain ⟨m', -, rfl, -, -, rounds, hturns, hcomplete, hcount⟩ := hgoes
  have hnodes : rounds.map (·.node) = net₀.order := hturns.nodes.trans hlike.order
  refine ⟨net₀, hcompiled, fun id a d ha hd p hp => ?_, ⟨rounds, hturns, ?_, hcount,
    fun round hround => (hcomplete round hround).delivers hspec ho.formed, ?_⟩,
    fun p path path' reader hp hpath hpath' hside =>
      hspec.path_unique ho.formed hp hpath hpath' hside, hresting, hresting.settle fun id hid => ?_⟩
  · obtain ⟨d', hd', -, hparents⟩ := hspec.node id a ha
    obtain rfl := Option.some.inj (hd.symm.trans hd')
    exact hparents p hp
  · rw [hnodes, hspec.order]
    exact List.mergeSort_perm _ _
  · rintro earlier round later rfl d hd x hx heq
    rw [List.map_append, List.map_cons] at hnodes
    have hlater := (hcomplete round (List.mem_append_right _ List.mem_cons_self)).later hw
      hspec.unused hd hnodes.symm
    have hnodup := hw.order_nodup
    rw [← hnodes, List.append_cons] at hnodup
    refine (List.nodup_append.mp hnodup).2.2 x.node ?_ d.route.node hlater heq
    have hmem := List.mem_map_of_mem (f := (·.node)) hx
    rwa [List.map_append] at hmem
  · have hlike' := hsettles.like ho.formed hcompiled
    rw [hlike'.order, hspec.mem_order] at hid
    rw [hlike'.queues_size, hw.queues_size]
    exact hid

/-- Settling the changed coins propagates changes, and settling them again does nothing. -/
theorem settled_in_one_pass_coins : ∃ k net,
    Network.settle.run.run Coin.changed.network = (.ok k, net) ∧ k ≠ 0 ∧ net.Resting ∧
      Network.settle.run.run net = (.ok 0, net) := by
  obtain ⟨c, d, chosen, hf⟩ := Coin.factory_provided
  obtain ⟨hs, husable⟩ := Coin.changed_reached
  obtain ⟨k, net, hrun⟩ := Coin.changed_ran.2
  have hcount : (Network.settle.run.run Coin.changed.network).1.toOption ≠ some 0 := by
    decide +kernel
  rw [hrun] at hcount
  obtain ⟨-, -, -, -, -, hresting, hagain⟩ := settled_in_one_pass hf hs husable hrun
  exact ⟨k, net, hrun, fun hk => hcount (congrArg some hk), hresting, hagain⟩

end Session

end ConstraintScoring
