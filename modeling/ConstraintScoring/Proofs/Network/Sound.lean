import ConstraintScoring.Proofs.Network.Wiring

/-!
# Sound moments

What holds at every moment of a session: tuples are held by their owners, the books of every node
agree with what it was told, the sources reflect the facts, the ledger balances, and what a reader
was told of a tuple follows the protocol.
-/

namespace ConstraintScoring

variable {V S : Type}

/-- The impacts that a node has recorded for a constraint. -/
def NodeKind.bagOf (c : Nat) : NodeKind V S → Multiset S
  | score n => if n.constraint = c then n.bag else 0
  | _ => 0

namespace Network

def outs (net : Network V S) (id : NodeId) : List TupleId := (net.kindAt id).outputIds

theorem outs_of_kindAt {net : Network V S} {id : NodeId} {k : NodeKind V S}
    (hk : net.kindAt id = k) : net.outs id = k.outputIds := by
  rw [outs, hk]

theorem Worked.outs {net net' : Network V S} {id : NodeId} {k' : NodeKind V S} {s' : Staging V}
    {ledger : Ledger S} (h : Worked net id k' s' ledger net') :
    net'.outs = Function.update net.outs id k'.outputIds := by
  funext j
  by_cases hj : j = id
  · rw [hj, Function.update_self, Network.outs, h.kindAt, Function.update_self]
  · rw [Function.update_of_ne hj, Network.outs, h.kindAt, Function.update_of_ne hj, Network.outs]

/-- The impacts of the matches of each constraint. -/
def bags (net : Network V S) (c : Nat) : Multiset S :=
  ∑ id ∈ Finset.range net.nodes.size, (net.kindAt id).bagOf c

/-- A network that differs from another one in its tuples and queues only. -/
structure Quiet (net net' : Network V S) : Prop where
  graph : net'.graph = net.graph
  nodes : net'.nodes = net.nodes
  routes : net'.routes = net.routes
  order : net'.order = net.order
  queues_size : net'.queues.size = net.queues.size
  ledger : net'.ledger = net.ledger

theorem Quiet.kindAt {net net' : Network V S} (h : Quiet net net') : net'.kindAt = net.kindAt := by
  funext id
  unfold Network.kindAt
  rw [h.nodes]

theorem Quiet.outs {net net' : Network V S} (h : Quiet net net') : net'.outs = net.outs := by
  funext id
  unfold Network.outs
  rw [h.kindAt]

theorem Quiet.bags {net net' : Network V S} (h : Quiet net net') : net'.bags = net.bags := by
  funext c
  unfold Network.bags
  rw [h.kindAt, h.nodes]

theorem Quiet.like {net₀ net net' : Network V S} (h : Quiet net net') (hlike : Like net₀ net) :
    Like net₀ net' := by
  refine ⟨h.graph.trans hlike.graph, h.routes.trans hlike.routes, h.order.trans hlike.order,
    (congrArg Array.size h.nodes).trans hlike.nodes_size, fun id => ?_,
    h.queues_size.trans hlike.queues_size, fun id => ?_, ?_⟩
  · unfold Network.frameAt
    rw [h.nodes]
    exact hlike.frameAt id
  · rw [h.kindAt, hlike.blank]
  · rw [h.ledger, hlike.refs]

end Network

namespace Moment

/-- The tuples that wait at a node, in its queue or taken from it. -/
def waiting (m : Moment V S) : NodeId → Array TupleId :=
  match m.phase with
  | .taken id ts _ | .telling id _ _ _ ts _ => Function.update m.net.queue id ts.toArray
  | _ => m.net.queue

/-- The tuple that readers are being told of. -/
def telling? (m : Moment V S) : Option TupleId :=
  match m.phase with
  | .telling _ _ t _ _ _ => some t
  | _ => none

/-- Whether a reader of the tuple has been told of it and not been told to drop it. -/
def Told (m : Moment V S) (r : Route) (t : TupleId) : Prop :=
  match m.phase with
  | .telling _ .insert x rs _ _ => if t = x then r ∉ rs else (m.net.arena.state t).isSeen
  | .telling _ .update x _ _ _ => t = x ∨ (m.net.arena.state t).isSeen
  | .telling _ .retract x rs _ _ => if t = x then r ∈ rs else (m.net.arena.state t).isSeen
  | _ => (m.net.arena.state t).isSeen

/-- Whether a reader has been told of everything about the tuple that readers are told of. -/
def Current (m : Moment V S) (r : Route) (t : TupleId) : Prop :=
  match m.phase with
  | .telling _ _ x rs _ _ => t = x → r ∉ rs
  | _ => True

def Knows (m : Moment V S) (r : Route) (t : TupleId) : Prop :=
  m.net.arena.Occupied t ∧ r ∈ m.net.routesOf (m.owner t) ∧ m.Told r t

def Fresh (m : Moment V S) (r : Route) (t : TupleId) : Prop :=
  m.Knows r t ∧ m.net.arena.state t = .ok ∧ m.Current r t

def hearing (m : Moment V S) (id : NodeId) : Hearing where
  known σ t := m.Knows ⟨id, σ⟩ t
  fresh σ t := m.Fresh ⟨id, σ⟩ t
  known_of_fresh _ _ h := h.1

/-- The nodes before the given ones in the order of settling have empty queues. -/
def Settled (m : Moment V S) (later : List NodeId) : Prop :=
  ∃ before, m.net.order = before ++ later ∧ ∀ id ∈ before, m.net.queue id = #[]

variable [Cell V]

/-- The facts that a source has taken note of. -/
def factsFor (m : Moment V S) (id : NodeId) : Table (FactKey V) V :=
  match m.phase with
  | .staging c f ids => if id ∈ ids then m.facts else c.after m.facts f
  | _ => m.facts

/-- The reader of a tuple that is being told of and what its owner has of it. -/
structure Announced (m : Moment V S) (id : NodeId) (e : Event) (t : TupleId) (rs : List Route) :
    Prop where
  owner : m.owner t = id
  occupied : m.net.arena.Occupied t
  state : m.net.arena.state t = e.announced
  readers : ∃ heard, m.net.routesOf id = heard ++ rs
  out : e ≠ .retract → t ∈ m.net.outs id
  gone : e = .retract → (∀ j, t ∉ m.net.outs j) ∧ ∀ j, t ∉ (m.waiting j).toList

/-- What the phase of a moment says of it. -/
def InPhase (m : Moment V S) : Prop :=
  match m.phase with
  | .rest => True
  | .staging c f ids => c.Allowed m.facts f ∧ ids.Nodup ∧
      ∀ id ∈ ids, ∃ n, m.net.kindAt id = .source n ∧ n.type = f.type
  | .settling ids => m.Settled ids
  | .taken id _ ids => (∃ before, m.net.order = before ++ id :: ids) ∧ m.Settled ids
  | .telling id e t rs _ ids => (∃ before, m.net.order = before ++ id :: ids) ∧ m.Settled ids ∧
      m.Announced id e t rs

variable [Std.TransOrd V] [Score S]

structure Sound (net₀ : Network V S) (width : NodeId → Nat) (m : Moment V S) : Prop where
  like : Network.Like net₀ m.net
  holdings : Holdings m.net.arena m.net.outs m.waiting m.owner m.telling?
  maker : ∀ t, m.net.arena.Occupied t → (m.net.kindAt (m.owner t)).isBridge = false
  books : ∀ id, (m.net.kindAt id).Books (m.hearing id) m.net.arena.row
  widths : ∀ t, m.net.arena.Occupied t → (m.net.arena.row t).length = width (m.owner t)
  facts_distinct : m.facts.Distinct
  reflects : ∀ id n, m.net.kindAt id = .source n → n.Reflects (m.factsFor id) m.net.arena.row
  balances : m.net.ledger.Balances m.net.bags
  log : ∀ r t, ∃ b, Protocol (m.log r t) b ∧ (b = true ↔ m.Knows r t)
  phase : m.InPhase

namespace Sound

variable {net₀ : Network V S} {width : NodeId → Nat} {m m' : Moment V S}

/-- A step that touches tuples and queues only, and leaves what the nodes were told as it is. -/
theorem quiet (h : Sound net₀ width m) (hq : Network.Quiet m.net m'.net)
    (howner : m'.owner = m.owner) (hlog : m'.log = m.log)
    (hholdings : Holdings m'.net.arena m'.net.outs m'.waiting m'.owner m'.telling?)
    (hocc : ∀ t, m'.net.arena.Occupied t → m.net.arena.Occupied t)
    (hrow : ∀ t, m'.net.arena.Occupied t → m'.net.arena.row t = m.net.arena.row t)
    (hknows : ∀ r t, m.Knows r t ↔ m'.Knows r t) (hfresh : ∀ r t, m'.Fresh r t → m.Fresh r t)
    (hdistinct : m'.facts.Distinct)
    (hfacts : ∀ id n, m.net.kindAt id = .source n → ∀ k, k.type = n.type →
      (m'.factsFor id).get? k = (m.factsFor id).get? k)
    (hphase : m'.InPhase) : Sound net₀ width m' := by
  have hout : ∀ id, ∀ x ∈ m.net.outs id, m'.net.arena.row x = m.net.arena.row x := by
    intro id x hx
    rw [← hq.outs] at hx
    exact hrow x (hholdings.occupied_out hx)
  refine ⟨hq.like h.like, hholdings, fun t ht => ?_, fun id => ?_, fun t ht => ?_, hdistinct,
    fun id n hn => ?_, ?_, fun r t => ?_, hphase⟩
  · rw [hq.kindAt, howner]
    exact h.maker t (hocc t ht)
  · rw [hq.kindAt]
    exact (h.books id).frame (fun σ t => hknows ⟨id, σ⟩ t)
      (fun σ t ht => ⟨hfresh ⟨id, σ⟩ t ht, hrow t ht.1.1⟩) (hout id)
  · rw [hrow t ht, howner]
    exact h.widths t (hocc t ht)
  · rw [hq.kindAt] at hn
    refine (h.reflects id n hn).frame (fun x hx => hout id x ?_) (hfacts id n hn)
    rwa [Network.outs_of_kindAt hn]
  · rw [hq.ledger, hq.bags]
    exact h.balances
  · rw [hlog]
    obtain ⟨b, hb, hiff⟩ := h.log r t
    exact ⟨b, hb, hiff.trans (hknows r t)⟩

end Sound

end Moment

end ConstraintScoring
