import ConstraintScoring.Proofs.Network.Moment

/-!
# The wiring of a network

What a network needs of its routes and of the order in which nodes are settled, so that events reach
every reader once, from one side, and later than their tuple's own node. None of it changes while
the network works.
-/

namespace ConstraintScoring.Network

variable {V S : Type}

structure Wired (net : Network V S) (width : NodeId → Nat) : Prop where
  queues_size : net.queues.size = net.nodes.size
  routes_nodup : ∀ p, (net.routesOf p).Nodup
  producer : ∀ p p' r, r ∈ net.routesOf p → r ∈ net.routesOf p' →
    (net.kindAt p).isBridge = false → (net.kindAt p').isBridge = false → p = p'
  reader : ∀ p r, r ∈ net.routesOf p → (net.kindAt r.node).isReader ∧
    ((net.kindAt r.node).isSingle → r.side = .left)
  later : ∀ p r before after, r ∈ net.routesOf p → net.order = before ++ p :: after →
    r.node ∈ after
  order_nodup : net.order.Nodup
  mem_order : ∀ id, id < net.nodes.size → id ∈ net.order
  shapes : ∀ id, ∃ widthOf, (net.kindAt id).Shapes widthOf (width id) ∧
    ∀ p σ, ⟨id, σ⟩ ∈ net.routesOf p → (net.kindAt p).isBridge = false → widthOf σ = width p
  constraint : ∀ id n, net.kindAt id = .score n → n.constraint < net.ledger.totals.size

/-- A node without its books. -/
def frameAt (net : Network V S) (id : NodeId) : Option (NetworkNode V S) :=
  net.nodes[id]?.map (setKind .aftBridge)

/-- A network that differs from another one in what it has been working on only. -/
structure Like (net₀ net : Network V S) : Prop where
  graph : net.graph = net₀.graph
  routes : net.routes = net₀.routes
  order : net.order = net₀.order
  nodes_size : net.nodes.size = net₀.nodes.size
  frameAt : ∀ id, net.frameAt id = net₀.frameAt id
  queues_size : net.queues.size = net₀.queues.size
  blank : ∀ id, (net.kindAt id).blank = (net₀.kindAt id).blank
  refs : net.ledger.refs = net₀.ledger.refs

section

variable {net₀ net net' : Network V S} {id : NodeId} {k' : NodeKind V S} {s' : Staging V}
  {ledger : Ledger S} {work : Stage V (NodeKind V S)} {Q : NodeKind V S → Staging V → Prop}
  {R : Fault → Prop} {f : Fault}

theorem Like.refl (net : Network V S) : Like net net := 
  ⟨rfl, rfl, rfl, rfl, fun _ => rfl, rfl, fun _ => rfl, rfl⟩

/-- The nodes stay where they are. -/
theorem Like.node {a : NetworkNode V S} (h : Like net₀ net) (ha : net.nodes[id]? = some a) :
    ∃ a₀, net₀.nodes[id]? = some a₀ ∧ a₀.decl = a.decl ∧ a₀.rank = a.rank ∧
      a₀.children = a.children := by
  have hframe := h.frameAt id
  unfold Network.frameAt at hframe
  rw [ha, Option.map_some] at hframe
  obtain ⟨a₀, ha₀, heq⟩ := Option.map_eq_some_iff.mp hframe.symm
  obtain ⟨hdecl, hrank, hchildren, -⟩ := NetworkNode.mk.inj heq
  exact ⟨a₀, ha₀, hdecl, hrank, hchildren⟩

theorem Like.symm (h : Like net₀ net) : Like net net₀ :=
  ⟨h.graph.symm, h.routes.symm, h.order.symm, h.nodes_size.symm, fun id => (h.frameAt id).symm,
    h.queues_size.symm, fun id => (h.blank id).symm, h.refs.symm⟩

theorem Like.routesOf (h : Like net₀ net) (p : NodeId) : net.routesOf p = net₀.routesOf p := by
  unfold Network.routesOf
  rw [h.routes]

theorem Like.isBridge (h : Like net₀ net) (p : NodeId) :
    (net.kindAt p).isBridge = (net₀.kindAt p).isBridge := by
  rw [← NodeKind.isBridge_blank, h.blank, NodeKind.isBridge_blank]

/-- Wiring does not depend on what a network has been working on. -/
theorem Wired.like {width : NodeId → Nat} (hw : Wired net₀ width) (h : Like net₀ net) :
    Wired net width := by
  refine ⟨?_, fun p => ?_, fun p p' r hr hr' hp hp' => ?_, fun p r hr => ?_,
    fun p r before after hr ho => ?_, ?_, fun id hid => ?_, fun id => ?_, fun id n hn => ?_⟩
  · rw [h.queues_size, h.nodes_size, hw.queues_size]
  · rw [h.routesOf]
    exact hw.routes_nodup p
  · rw [h.routesOf] at hr hr'
    rw [h.isBridge] at hp hp'
    exact hw.producer p p' r hr hr' hp hp'
  · rw [h.routesOf] at hr
    rw [← NodeKind.isReader_blank, ← NodeKind.isSingle_blank, h.blank, NodeKind.isReader_blank,
      NodeKind.isSingle_blank]
    exact hw.reader p r hr
  · rw [h.routesOf] at hr
    rw [h.order] at ho
    exact hw.later p r before after hr ho
  · rw [h.order]
    exact hw.order_nodup
  · rw [h.order]
    exact hw.mem_order id (h.nodes_size ▸ hid)
  · obtain ⟨widthOf, hshapes, hwidth⟩ := hw.shapes id
    refine ⟨widthOf, ?_, fun p σ hr hp => ?_⟩
    · rwa [← NodeKind.shapes_blank, h.blank, NodeKind.shapes_blank]
    · rw [h.routesOf] at hr
      rw [h.isBridge] at hp
      exact hwidth p σ hr hp
  · have hblank := h.blank id
    rw [hn] at hblank
    rw [Ledger.size_of_refs h.refs]
    cases hk : net₀.kindAt id with
    | score n₀ =>
        rw [hk] at hblank
        have hblank : NodeKind.score { n with impacts := .empty } =
          .score { n₀ with impacts := .empty } := hblank
        have hc := congrArg ScoreNode.constraint (NodeKind.score.inj hblank)
        exact hc ▸ hw.constraint id n₀ hk
    | _ =>
        rw [hk] at hblank
        cases hblank

/-- What the work of one node changes. -/
structure Worked (net : Network V S) (id : NodeId) (k' : NodeKind V S) (s' : Staging V)
    (ledger : Ledger S) (net' : Network V S) : Prop where
  graph : net'.graph = net.graph
  routes : net'.routes = net.routes
  order : net'.order = net.order
  nodes_size : net'.nodes.size = net.nodes.size
  frameAt : ∀ j, net'.frameAt j = net.frameAt j
  queues_size : net'.queues.size = net.queues.size
  kindAt : net'.kindAt = Function.update net.kindAt id k'
  queue : net'.queue = Function.update net.queue id s'.queue
  arena : net'.arena = s'.arena
  ledger : net'.ledger = ledger

theorem Worked.like (h : Worked net id k' s' ledger net') (hlike : Like net₀ net)
    (hblank : k'.blank = (net.kindAt id).blank)
    (hrefs : ledger.refs = net.ledger.refs) : Like net₀ net' := by
  refine ⟨h.graph.trans hlike.graph, h.routes.trans hlike.routes, h.order.trans hlike.order,
    h.nodes_size.trans hlike.nodes_size, fun j => (h.frameAt j).trans (hlike.frameAt j),
    h.queues_size.trans hlike.queues_size, fun j => ?_, ?_⟩
  · rw [h.kindAt]
    by_cases hj : j = id
    · subst hj
      rw [Function.update_self, hblank, hlike.blank]
    · rw [Function.update_of_ne hj, hlike.blank]
  · rw [h.ledger, hrefs, hlike.refs]

theorem kindAt_modify {nodes : Array (NetworkNode V S)} (hid : id < nodes.size) (k : NodeKind V S)
    (j : NodeId) : ((nodes.modify id (setKind k))[j]?.map (·.kind)).getD .aftBridge =
      if j = id then k else (nodes[j]?.map (·.kind)).getD .aftBridge := by
  rw [Array.getElem?_modify]
  by_cases hj : j = id
  · subst hj
    simp [hid, setKind]
  · simp [hj, Ne.symm hj]

theorem frameAt_modify (net : Network V S) (id : NodeId) (k : NodeKind V S) (j : NodeId) :
    (net.nodes.modify id (setKind k))[j]?.map (setKind .aftBridge) = net.frameAt j := by
  unfold frameAt
  rw [Array.getElem?_modify]
  split
  · rw [Option.map_map]
    rfl
  · rfl

theorem lt_of_kindAt {k : NodeKind V S} (hk : net.kindAt id = k) (hb : k.isBridge = false) :
    id < net.nodes.size := by
  by_contra hlt
  have hnone : net.nodes[id]? = none := Array.getElem?_eq_none (Nat.le_of_not_lt hlt)
  unfold kindAt at hk
  rw [hnone] at hk
  subst hk
  cases hb

theorem node_of_kindAt {k : NodeKind V S} (hk : net.kindAt id = k) (hb : k.isBridge = false) :
    ∃ node, net.nodes[id]? = some node ∧ node.kind = k := by
  have hlt := lt_of_kindAt hk hb
  refine ⟨net.nodes[id], Array.getElem?_eq_getElem hlt, ?_⟩
  unfold kindAt at hk
  rw [Array.getElem?_eq_getElem hlt] at hk
  exact hk

/-- Work that ensures something of a node and its staging ensures it in the network. -/
theorem workAt_spec (h : work.Ensures ⟨net.arena, net.queue id⟩ Q R) (hid : id < net.nodes.size)
    (hqueues : net.queues.size = net.nodes.size) :
    match net.workAt id work with
    | (.ok (), net') => ∃ k' s', Q k' s' ∧ Worked net id k' s' net.ledger net'
    | (.error f, _) => R f := by
  unfold Stage.Ensures at h
  unfold Network.queue at h
  unfold workAt
  rcases hrun : work.run.run ⟨net.arena, net.queues.getD id #[]⟩ with ⟨f | k', s'⟩
  · rw [hrun] at h
    simp only [hrun]
    exact h
  · rw [hrun] at h
    simp only [hrun]
    refine ⟨k', s', h, rfl, rfl, rfl, by simp, fun j => frameAt_modify net id k' j, by simp,
      funext fun j => ?_, funext fun j => ?_, rfl, rfl⟩
    · unfold kindAt
      rw [kindAt_modify hid, Function.update_apply]
    · have hlt : id < net.queues.size := hqueues ▸ hid
      unfold Network.queue
      rw [Function.update_apply]
      by_cases hj : j = id
      · subst hj
        simp [hlt]
      · simp [hj, Ne.symm hj, Array.getD_eq_getD_getElem?]

end

end ConstraintScoring.Network
