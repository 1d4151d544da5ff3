import ConstraintScoring.Proofs.Network.Steps

/-!
# Steps in which a node works

A source that takes note of a fact and a reader that hears of an event change their own books and
tuples. What all other nodes know stays, and so do the rows they have read.
-/

namespace ConstraintScoring

namespace Network

variable {V S : Type} {net net' : Network V S} {id : NodeId} {k k' : NodeKind V S} {s' : Staging V}
  {ledger : Ledger S}

/-- The work of a node changes what the node itself has recorded, and leaves the rest. -/
theorem Worked.bags (h : Worked net id k' s' ledger net') (hid : id < net.nodes.size) (c : Nat) :
    ∃ rest, net.bags c = (net.kindAt id).bagOf c + rest ∧ net'.bags c = k'.bagOf c + rest := by
  have hmem := Finset.mem_range.mpr hid
  refine ⟨∑ j ∈ (Finset.range net.nodes.size).erase id, (net.kindAt j).bagOf c, ?_, ?_⟩
  · exact (Finset.add_sum_erase _ _ hmem).symm
  · unfold Network.bags
    rw [h.nodes_size, ← Finset.add_sum_erase _ _ hmem, h.kindAt, Function.update_self]
    congr 1
    refine Finset.sum_congr rfl fun j hj => ?_
    rw [Function.update_of_ne (Finset.ne_of_mem_erase hj)]

theorem bagOf_eq_zero (hk : ∀ n, k ≠ .score n) (c : Nat) : k.bagOf c = 0 := by
  cases k with
  | score n => exact absurd rfl (hk n)
  | _ => rfl

theorem not_score_of_blank (hk : ∀ n, k ≠ .score n) (hblank : k'.blank = k.blank) (n : ScoreNode V S) :
    k' ≠ .score n := by
  rintro rfl
  cases k with
  | score n => exact hk n rfl
  | _ => cases hblank

variable [Cell V] {change : SourceNode V → Fact V → Stage V (SourceNode V)} {f : Fact V}
  {n : SourceNode V} {Q : SourceNode V → Staging V → Prop} {R : Fault → Prop}

/-- What a reader answers once it has worked, with the subject of its work. -/
def answer (id : NodeId) (subject : Network V S → String) : Except Fault Unit × Network V S →
    Except NetworkFault Unit × Network V S
  | (.ok (), net) => (.ok (), net)
  | (.error fault, net) => (.error ⟨id, subject net, fault⟩, net)

theorem stageAt_spec (hn : net.kindAt id = .source n) (hqueues : net.queues.size = net.nodes.size)
    (h : (change n f).Ensures ⟨net.arena, net.queue id⟩ Q R) :
    match (stageAt change f id).run.run net with
    | (.ok (), net') => ∃ n' s', Q n' s' ∧ Worked net id (.source n') s' net.ledger net'
    | (.error fault, _) => fault.node = id ∧ R fault.fault := by
  obtain ⟨⟨decl, rank, children, kind⟩, hnode, hkind⟩ := node_of_kindAt hn rfl
  obtain rfl : kind = .source n := hkind
  have hwork : (do return .source (← change n f) : Stage V (NodeKind V S)).Ensures
      ⟨net.arena, net.queue id⟩ (fun k s => ∃ n', k = .source n' ∧ Q n' s) R :=
    .of_bind (h.mono (fun n' s hs => .of_pure ⟨n', rfl, hs⟩) fun _ hf => hf)
  have hspec := workAt_spec hwork (lt_of_kindAt hn rfl) hqueues
  have hrun : (stageAt change f id).run.run net =
      answer id (fun _ => Cell.label f.cell) (net.workAt id (do return .source (← change n f))) := by
    unfold stageAt
    simp only [ExceptT.run_mk, StateT.run, hnode]
    rcases net.workAt id _ with ⟨fault | ⟨⟩, net'⟩ <;> rfl
  rw [hrun]
  revert hspec
  rcases net.workAt id _ with ⟨fault | ⟨⟩, net'⟩ <;> intro hspec
  · exact ⟨rfl, hspec⟩
  · obtain ⟨k', s', ⟨n', rfl, hQ⟩, hwork⟩ := hspec
    exact ⟨n', s', hQ, hwork⟩

variable [Score S]

variable {r : Route} {e : Event} {t : TupleId} {node : NetworkNode V S}

theorem deliver_run_score {n : ScoreNode V S} (hnode : net.nodes[r.node]? = some node)
    (hkind : node.kind = .score n) :
    (deliver e t r).run.run net =
      answer r.node (fun net => Cell.rowLabel (net.arena.row t)) (net.scoreAt r.node n e t) := by
  unfold deliver
  simp only [ExceptT.run_mk, StateT.run, hnode, hkind]
  rcases net.scoreAt r.node n e t with ⟨fault | ⟨⟩, net'⟩ <;> rfl

theorem deliver_run_work (hnode : net.nodes[r.node]? = some node)
    (hscore : ∀ n, node.kind ≠ .score n) : (deliver e t r).run.run net =
      answer r.node (fun net => Cell.rowLabel (net.arena.row t))
        (net.workAt r.node (node.kind.onEvent r.side e t)) := by
  unfold deliver
  simp only [ExceptT.run_mk, StateT.run, hnode]
  cases hkind : node.kind with
  | score n => exact absurd hkind (hscore n)
  | _ => rcases net.workAt r.node _ with ⟨fault | ⟨⟩, net'⟩ <;> rfl

variable [LawfulScore S] [Std.TransOrd V] {h : Hearing} {widthOf : Side → Nat} {w : Nat}

theorem scoreAt_spec {n : ScoreNode V S} (hn : net.kindAt id = .score n)
    (hc : n.constraint < net.ledger.totals.size) (hb : n.Books h net.arena.row)
    (he : h.Expects .left e t) :
    match net.scoreAt id n e t with
    | (.ok (), net') => ∃ n' ledger,
        NodeKind.Heard w (.score n) ⟨net.arena, net.queue id⟩ (h.hear .left e t) (.score n')
          ⟨net.arena, net.queue id⟩ ∧
        Worked net id (.score n') ⟨net.arena, net.queue id⟩ ledger net' ∧
        ledger.refs = net.ledger.refs ∧
        (net.ledger.Balances net.bags → ledger.Balances net'.bags)
    | (.error fault, _) => n.Trips e (net.arena.row t) fault := by
  have hid := lt_of_kindAt hn rfl
  unfold scoreAt
  rcases hrun : n.onEvent e t (net.arena.row t) net.ledger with fault | ⟨n', ledger⟩
  · exact ScoreNode.onEvent_error (ρ := net.arena.row) hrun
  · have hheard := ScoreNode.onEvent_heard (ρ := net.arena.row) hb he hc hrun
    have hwork : Worked net id (.score n') ⟨net.arena, net.queue id⟩ ledger
        { net with nodes := net.nodes.modify id (setKind (.score n')), ledger } := by
      refine ⟨rfl, rfl, rfl, by simp, fun j => frameAt_modify net id (.score n') j, rfl,
        funext fun j => ?_, ?_, rfl, rfl⟩
      · unfold kindAt
        rw [kindAt_modify hid, Function.update_apply]
      · exact (Function.update_eq_self id net.queue).symm
    refine ⟨n', ledger, ⟨.refl, hheard.books, ?_⟩, hwork, hheard.refs, fun hbal => ?_⟩
    · obtain ⟨hconstraint, himpact, hweight, hweigher⟩ := hheard.alike
      rw [NodeKind.blank, NodeKind.blank, hconstraint, himpact, hweight, hweigher]
    · obtain ⟨rest, hrest, hrest'⟩ := hwork.bags hid n.constraint
      rw [hn] at hrest
      refine hheard.balances _ _ rest hbal ?_ ?_ fun d hd => ?_
      · rw [hrest, NodeKind.bagOf, if_pos rfl]
      · rw [hrest', NodeKind.bagOf, if_pos hheard.alike.constraint]
      · obtain ⟨rest, hrest, hrest'⟩ := hwork.bags hid d
        rw [hn] at hrest
        rw [hrest, hrest', NodeKind.bagOf, NodeKind.bagOf, hheard.alike.constraint,
          if_neg (Ne.symm hd), if_neg (Ne.symm hd)]

/-- A delivery keeps the books of its reader and the ledger, and is stopped by nothing but what the
reader evaluates. -/
theorem deliver_spec (hk : net.kindAt r.node = k) (hreader : k.isReader)
    (hqueues : net.queues.size = net.nodes.size)
    (hconstraint : ∀ n, k = .score n → n.constraint < net.ledger.totals.size)
    (hb : k.Books h net.arena.row) (he : h.Expects r.side e t) (hside : k.isSingle → r.side = .left)
    (hc : Staging.Clear ⟨net.arena, net.queue r.node⟩ k.outputIds (h.inputs r.side t))
    (hs : k.Shapes widthOf w)
    (hin : ∀ σ x, h.Input r.side t σ x → (net.arena.row x).length = widthOf σ) :
    match (deliver e t r).run.run net with
    | (.ok (), net') => ∃ k' s' ledger,
        k.Heard w ⟨net.arena, net.queue r.node⟩ (h.hear r.side e t) k' s' ∧
        Worked net r.node k' s' ledger net' ∧
        ledger.refs = net.ledger.refs ∧
        (net.ledger.Balances net.bags → ledger.Balances net'.bags)
    | (.error fault, _) =>
        fault.node = r.node ∧ k.Trips r.side e net.arena.row t fault.fault := by
  have hbridge := NodeKind.isBridge_of_isReader hreader
  have hid := lt_of_kindAt hk hbridge
  obtain ⟨node, hnode, hkind⟩ := node_of_kindAt hk hbridge
  by_cases hscore : ∃ n, k = .score n
  · obtain ⟨n, rfl⟩ := hscore
    have hleft := hside rfl
    rw [hleft] at he
    have hspec := scoreAt_spec (w := w) hk (hconstraint n rfl) hb he
    rw [deliver_run_score hnode hkind, hleft]
    revert hspec
    rcases net.scoreAt r.node n e t with ⟨fault | ⟨⟩, net'⟩ <;> intro hspec
    · exact ⟨rfl, hspec⟩
    · obtain ⟨n', ledger, hspec⟩ := hspec
      exact ⟨.score n', _, ledger, hspec⟩
  · have hscore : ∀ n, k ≠ .score n := fun n hn => hscore ⟨n, hn⟩
    have hspec := workAt_spec (NodeKind.onEvent_ensures hb he hside hc hs hin hscore hreader) hid
      hqueues
    rw [deliver_run_work hnode (hkind.symm ▸ hscore), hkind]
    revert hspec
    rcases net.workAt r.node _ with ⟨fault | ⟨⟩, net'⟩ <;> intro hspec
    · exact ⟨rfl, hspec⟩
    · obtain ⟨k', s', hheard, hwork⟩ := hspec
      refine ⟨k', s', net.ledger, hheard, hwork, rfl, fun hbal => ?_⟩
      have hbags : net'.bags = net.bags := by
        funext c
        obtain ⟨rest, hrest, hrest'⟩ := hwork.bags hid c
        rw [hrest, hrest', hk, bagOf_eq_zero hscore,
          bagOf_eq_zero (not_score_of_blank hscore hheard.blank)]
      rw [hbags]
      exact hbal

end Network

namespace Moment

variable {V S : Type}

section Knowledge

variable {m m' : Moment V S} {r r' : Route} {t x : TupleId} {id : NodeId} {e : Event}
  {rs : List Route} {ts : List TupleId} {ids : List NodeId} {net : Network V S}

theorem told_congr (hphase : m'.phase = m.phase)
    (hseen : (m'.net.arena.state x).isSeen = (m.net.arena.state x).isSeen) :
    m'.Told r x ↔ m.Told r x := by
  unfold Told
  rw [hphase, hseen]

theorem not_told (hne : m.telling? ≠ some x) (hseen : (m.net.arena.state x).isSeen = false) :
    ¬m.Told r x := by
  cases hp : m.phase with
  | telling id e y rs ts ids =>
      have hxy : x ≠ y := fun hxy => hne (by simp only [telling?, hp, hxy])
      cases e <;> simp [Told, hp, hxy, hseen]
  | _ => simp [Told, hp, hseen]

theorem current_congr (hphase : m'.phase = m.phase) : m'.Current r x ↔ m.Current r x := by
  unfold Current
  rw [hphase]

variable {W : Row V → Prop} {s' : Staging V} {O' : List TupleId}

/-- Work tells nobody anything. -/
theorem knows_worked (hk : Staging.Kept W ⟨m.net.arena, m.net.queue id⟩ (m.net.outs id) s' O')
    (htelling : ∀ x, m.telling? = some x → m.net.arena.Occupied x)
    (harena : net.arena = s'.arena) (hroutes : net.routes = m.net.routes) :
    (m.worked id net m.phase).Knows r x ↔ m.Knows r x := by
  by_cases hocc : m.net.arena.Occupied x
  · have hocc' : net.arena.Occupied x := harena ▸ hk.occupied x hocc
    have htold : (m.worked id net m.phase).Told r x ↔ m.Told r x := by
      refine told_congr rfl ?_
      change (net.arena.state x).isSeen = _
      rw [harena]
      exact hk.seen x hocc
    have howner : (m.worked id net m.phase).owner x = m.owner x := Holdings.adopt_of_occupied hocc
    have hreaders : net.routesOf (m.owner x) = m.net.routesOf (m.owner x) := by
      unfold Network.routesOf
      rw [hroutes]
    unfold Knows
    rw [htold, howner]
    change net.arena.Occupied x ∧ r ∈ net.routesOf (m.owner x) ∧ _ ↔ _
    rw [hreaders]
    exact and_congr_left fun _ => iff_of_true hocc' hocc
  · refine iff_of_false (fun hx => ?_) fun hx => hocc hx.1
    have hx' : s'.arena.Occupied x := harena ▸ hx.1
    refine not_told (m := m.worked id net m.phase) (fun ht => hocc (htelling x ht)) ?_ hx.2.2
    change (net.arena.state x).isSeen = false
    rw [harena]
    exact (hk.made x hx' hocc).2.1

theorem fresh_worked (hk : Staging.Kept W ⟨m.net.arena, m.net.queue id⟩ (m.net.outs id) s' O')
    (htelling : ∀ x, m.telling? = some x → m.net.arena.Occupied x)
    (harena : net.arena = s'.arena) (hroutes : net.routes = m.net.routes)
    (hf : (m.worked id net m.phase).Fresh r x) :
    m.Fresh r x ∧ net.arena.row x = m.net.arena.row x := by
  have hknows := (knows_worked hk htelling harena hroutes).mp hf.1
  have hstate : s'.arena.state x = .ok := harena ▸ hf.2.1
  obtain ⟨hok, hrow⟩ := hk.ok x hknows.1 hstate
  exact ⟨⟨hknows, hok, (current_congr rfl).mp hf.2.2⟩, harena ▸ hrow⟩

/-- What a reader knows once it was told of the event. -/
def Hears (r : Route) (e : Event) (t : TupleId) (K : Route → TupleId → Prop) (r' : Route)
    (x : TupleId) : Prop :=
  match e with
  | .insert | .update => r' = r ∧ x = t ∨ K r' x
  | .retract => K r' x ∧ ¬(r' = r ∧ x = t)

theorem Hears.mono {K K' : Route → TupleId → Prop} (h : Hears r e t K r' x)
    (hK : K r' x → K' r' x) : Hears r e t K' r' x := by
  cases e with
  | insert => exact Or.imp_right hK h
  | update => exact Or.imp_right hK h
  | retract => exact And.imp_left hK h

/-- The other nodes hear nothing. -/
theorem hears_of_node_ne {K : Route → TupleId → Prop} (hne : r'.node ≠ r.node) :
    Hears r e t K r' x ↔ K r' x := by
  have hne : r' ≠ r := fun heq => hne (congrArg Route.node heq)
  unfold Hears
  cases e <;> simp [hne]

/-- Once a reader is told of the event, it is the only one whose knowledge has changed. -/
theorem knows_tell (hp : m.phase = .telling id e t (r :: rs) ts ids)
    (hocc : m.net.arena.Occupied t) (hr : r ∈ m.net.routesOf (m.owner t)) (hrs : r ∉ rs) :
    { m with phase := .telling id e t rs ts ids }.Knows r' x ↔ Hears r e t m.Knows r' x := by
  unfold Knows Hears
  by_cases hxt : x = t
  · subst hxt
    by_cases hr' : r' = r
    · subst hr'
      cases e <;> simp [Told, hp, hocc, hr, hrs]
    · cases e <;> simp [Told, hp, hr']
  · cases e <;> simp [Told, hp, hxt]

theorem fresh_tell (hp : m.phase = .telling id e t (r :: rs) ts ids)
    (hocc : m.net.arena.Occupied t) (hr : r ∈ m.net.routesOf (m.owner t)) (hrs : r ∉ rs)
    (hstate : m.net.arena.state t = e.announced)
    (hf : { m with phase := .telling id e t rs ts ids }.Fresh r' x) :
    Hears r e t m.Fresh r' x := by
  have hknows := (knows_tell hp hocc hr hrs).mp hf.1
  have hok : m.net.arena.state x = .ok := hf.2.1
  have hcurrent : x = t → r' ∉ rs := hf.2.2
  have hold : ¬(r' = r ∧ x = t) → m.Knows r' x → m.Fresh r' x := fun hne hx =>
    ⟨hx, hok, by
      simp only [Current, hp]
      rintro rfl hmem
      rcases List.mem_cons.mp hmem with rfl | hmem
      · exact hne ⟨rfl, rfl⟩
      · exact hcurrent rfl hmem⟩
  unfold Hears at hknows ⊢
  cases e with
  | insert =>
      by_cases hself : r' = r ∧ x = t
      · exact Or.inl hself
      · exact Or.inr (hold hself (hknows.resolve_left hself))
  | update =>
      by_cases hself : r' = r ∧ x = t
      · exact Or.inl hself
      · exact Or.inr (hold hself (hknows.resolve_left hself))
  | retract => exact ⟨hold hknows.2 hknows.1, hknows.2⟩

end Knowledge

variable [Cell V] [Std.TransOrd V] [Score S] {net₀ net : Network V S} {width : NodeId → Nat}
  {m m' : Moment V S} {id : NodeId}

namespace Sound

/-- The rows that a node has made are as wide as its rows should be. -/
theorem width_worked {s' : Staging V} {O' : List TupleId} {t : TupleId} (h : Sound net₀ width m)
    (hk : Staging.Kept (·.length = width id) ⟨m.net.arena, m.net.queue id⟩ (m.net.outs id) s' O')
    (harena : net.arena = s'.arena) (ht : net.arena.Occupied t) :
    (net.arena.row t).length = width (adopt m.net.arena net.arena id m.owner t) := by
  have hrows := hk.rows t (harena ▸ ht)
  by_cases hocc : m.net.arena.Occupied t
  · rw [Holdings.adopt_of_occupied hocc, harena]
    by_cases hO : t ∈ m.net.outs id
    · rcases hrows with ⟨-, hrow⟩ | hW
      · rw [hrow]
        exact h.widths t hocc
      · rw [hW, h.holdings.owner_out id t hO]
    · rw [hk.row_other t hocc hO]
      exact h.widths t hocc
  · rw [Holdings.adopt_of_new ht hocc, harena]
    exact hrows.resolve_left fun hrow => hocc hrow.1

/-- A moment after one node has worked on its tuples. -/
theorem of_work {k' : NodeKind V S} {s' : Staging V} {ledger : Ledger S} (h : Sound net₀ width m)
    (w : Staging.Work (·.length = width id) ⟨m.net.arena, m.net.queue id⟩ (m.net.outs id) s'
      k'.outputIds)
    (hwork : Network.Worked m.net id k' s' ledger m'.net)
    (hblank : k'.blank = (m.net.kindAt id).blank) (hid : (m.net.kindAt id).isBridge = false)
    (hrefs : ledger.refs = m.net.ledger.refs)
    (hbalances : ledger.Balances m'.net.bags)
    (hwait : m.waiting id = m.net.queue id)
    (hwaiting : m'.waiting = Function.update m.waiting id s'.queue)
    (howner : m'.owner = adopt m.net.arena m'.net.arena id m.owner)
    (htelling : m'.telling? = m.telling?)
    (hknows : ∀ r x, r.node ≠ id → (m.Knows r x ↔ m'.Knows r x))
    (hfresh : ∀ r x, r.node ≠ id → m'.Fresh r x →
      m.Fresh r x ∧ m'.net.arena.row x = m.net.arena.row x)
    (hbooks : k'.Books (m'.hearing id) m'.net.arena.row) (hdistinct : m'.facts.Distinct)
    (hself : ∀ n, k' = .source n → n.Reflects (m'.factsFor id) m'.net.arena.row)
    (hfacts : ∀ j n, j ≠ id → m.net.kindAt j = .source n → ∀ k, k.type = n.type →
      (m'.factsFor j).get? k = (m.factsFor j).get? k)
    (hlog : ∀ r t, ∃ b, Protocol (m'.log r t) b ∧ (b = true ↔ m'.Knows r t))
    (hphase : m'.InPhase) : Sound net₀ width m' := by
  have hk := w.kept (hwait ▸ h.holdings.tended id)
  have hkind : ∀ j, j ≠ id → m'.net.kindAt j = m.net.kindAt j := fun j hj => by
    rw [hwork.kindAt, Function.update_of_ne hj]
  have hout : ∀ j, j ≠ id → ∀ x ∈ m.net.outs j, m'.net.arena.row x = m.net.arena.row x := by
    intro j hj x hx
    rw [hwork.arena]
    refine hk.row_other x (h.holdings.occupied_out hx) fun hx' => hj ?_
    exact (h.holdings.owner_out j x hx).symm.trans (h.holdings.owner_out id x hx')
  have hbridge : ∀ j, (m'.net.kindAt j).isBridge = (m.net.kindAt j).isBridge := by
    intro j
    by_cases hj : j = id
    · rw [hj, hwork.kindAt, Function.update_self, ← NodeKind.isBridge_blank, hblank,
        NodeKind.isBridge_blank]
    · rw [hkind j hj]
  refine ⟨hwork.like h.like hblank hrefs, ?_, fun t ht => ?_, fun j => ?_, fun t ht => ?_,
    hdistinct, fun j n hn => ?_, hwork.ledger.symm ▸ hbalances, hlog, hphase⟩
  · have hh := h.holdings.work (hwait.symm ▸ w)
    rw [hwork.outs, hwaiting, howner, htelling, hwork.arena]
    exact hh
  · rw [hbridge, howner]
    by_cases hocc : m.net.arena.Occupied t
    · rw [Holdings.adopt_of_occupied hocc]
      exact h.maker t hocc
    · rw [Holdings.adopt_of_new ht hocc]
      exact hid
  · by_cases hj : j = id
    · subst hj
      rw [hwork.kindAt, Function.update_self]
      exact hbooks
    · rw [hkind j hj]
      exact (h.books j).frame (fun σ t => hknows ⟨j, σ⟩ t hj) (fun σ t => hfresh ⟨j, σ⟩ t hj)
        (hout j hj)
  · rw [howner]
    exact h.width_worked hk hwork.arena ht
  · by_cases hj : j = id
    · subst hj
      rw [hwork.kindAt, Function.update_self] at hn
      exact hself n hn
    · rw [hkind j hj] at hn
      refine (h.reflects j n hn).frame (fun x hx => hout j hj x ?_) (hfacts j n hj hn)
      rwa [Network.outs_of_kindAt hn]

variable {c : FactChange} {f : Fact V} {ids : List NodeId} {e : Event} {t : TupleId} {r : Route}
  {rs : List Route} {ts : List TupleId}

/-- The source whose turn it is has not taken note of the change yet. -/
theorem source_ready (h : Sound net₀ width m) (hw : Network.Wired net₀ width)
    (hp : m.phase = .staging c f (id :: ids)) : ∃ n, m.net.kindAt id = .source n ∧
      (c.stage n f).Ensures ⟨m.net.arena, m.net.queue id⟩
        (n.Noted (·.length = width id) ⟨m.net.arena, m.net.queue id⟩ (c.after m.facts f))
        fun fault => n.accepts f = .error fault := by
  have hphase := h.phase
  simp only [InPhase, hp] at hphase
  obtain ⟨hallowed, -, hsources⟩ := hphase
  obtain ⟨n, hn, htype⟩ := hsources id List.mem_cons_self
  have hreflects := h.reflects id n hn
  simp only [factsFor, hp, List.mem_cons_self, if_true] at hreflects
  have htended := h.holdings.tended id
  simp only [waiting, hp, Network.outs, hn] at htended
  obtain ⟨widthOf, hshapes, -⟩ := (hw.like h.like).shapes id
  rw [hn] at hshapes
  exact ⟨n, hn, SourceNode.change_ensures c hreflects h.facts_distinct htended htype.symm hallowed
    hshapes.symm⟩

theorem note (h : Sound net₀ width m) (hw : Network.Wired net₀ width)
    (hp : m.phase = .staging c f (id :: ids))
    (he : Network.Ends (Network.stageAt c.stage f id) m.net () net) :
    Sound net₀ width (m.worked id net (.staging c f ids)) := by
  have hwired := hw.like h.like
  have hphase := h.phase
  simp only [InPhase, hp] at hphase
  obtain ⟨hallowed, hnodup, hsources⟩ := hphase
  obtain ⟨hid, hnodup⟩ := List.nodup_cons.mp hnodup
  obtain ⟨n, hn, hensures⟩ := h.source_ready hw hp
  have hspec := Network.stageAt_spec hn hwired.queues_size hensures
  rw [he] at hspec
  obtain ⟨n', s', ⟨hwork, hreflects, htype, hclass⟩, hworked⟩ := hspec
  have hwaiting : m.waiting = m.net.queue := by simp only [waiting, hp]
  have htelling : m.telling? = none := by simp only [telling?, hp]
  have hwork : Staging.Work (·.length = width id) ⟨m.net.arena, m.net.queue id⟩ (m.net.outs id) s'
      n'.outputs.values := by
    rwa [Network.outs_of_kindAt hn]
  have hk := hwork.kept (hwaiting ▸ h.holdings.tended id)
  have hsilent : ∀ x, m.telling? = some x → m.net.arena.Occupied x := fun x hx => by
    rw [htelling] at hx
    cases hx
  have hstaging : ∀ r x, (m.worked id net (.staging c f ids)).Knows r x ↔
      (m.worked id net m.phase).Knows r x := by
    intro r x
    simp only [Knows, Told, worked, hp]
  have hknows : ∀ r x, m.Knows r x ↔ (m.worked id net (.staging c f ids)).Knows r x := fun r x =>
    ((hstaging r x).trans (knows_worked hk hsilent hworked.arena hworked.routes)).symm
  have hkind : (Network.kindAt net) = Function.update m.net.kindAt id (.source n') := hworked.kindAt
  refine h.of_work hwork hworked ?_ ?_ rfl ?_ ?_ ?_ rfl ?_ (fun r x _ => hknows r x)
    (fun r x _ hx => ?_) trivial h.facts_distinct (fun n₁ hn₁ => ?_) (fun j n₁ hj _ k _ => ?_)
    (fun r x => ?_) ⟨hallowed, hnodup, fun j hj => ?_⟩
  · rw [hn, NodeKind.blank, NodeKind.blank, htype, hclass]
  · rw [hn]
    rfl
  · have hbags : net.bags = m.net.bags := by
      funext d
      obtain ⟨rest, hrest, hrest'⟩ := hworked.bags (Network.lt_of_kindAt hn rfl) d
      rw [hrest, hrest', hn]
      rfl
    exact hbags ▸ h.balances
  · rw [hwaiting]
  · rw [hwaiting]
    exact hworked.queue
  · rw [htelling]
    rfl
  · refine fresh_worked hk hsilent hworked.arena hworked.routes ⟨(hstaging r x).mp hx.1, hx.2.1, ?_⟩
    simp only [Current, worked, hp]
  · obtain rfl := NodeKind.source.inj hn₁
    simp only [factsFor, worked, if_neg hid]
    rw [hworked.arena]
    exact hreflects
  · simp only [factsFor, worked, hp, List.mem_cons, hj, false_or]
  · obtain ⟨b, hb, hiff⟩ := h.log r x
    exact ⟨b, hb, hiff.trans (hknows r x)⟩
  · obtain ⟨n₁, hn₁, htype₁⟩ := hsources j (List.mem_cons_of_mem _ hj)
    refine ⟨n₁, ?_, htype₁⟩
    have hne : j ≠ id := fun hji => hid (hji ▸ hj)
    exact (congrFun hkind j).trans ((Function.update_of_ne hne _ _).trans hn₁)

/-- What holds of the reader that hears of an event next. -/
structure Ready (width : NodeId → Nat) (m : Moment V S) (id : NodeId) (e : Event) (t : TupleId)
    (r : Route) (rs : List Route) (ids : List NodeId) : Prop where
  announced : m.Announced id e t (r :: rs)
  order : ∃ before, m.net.order = before ++ id :: ids
  settled : m.Settled ids
  route : r ∈ m.net.routesOf (m.owner t)
  once : r ∉ rs
  later : r.node ∈ ids
  other : r.node ≠ id
  reader : (m.net.kindAt r.node).isReader
  side : (m.net.kindAt r.node).isSingle → r.side = .left
  expects : (m.hearing r.node).Expects r.side e t
  clear : Staging.Clear ⟨m.net.arena, m.net.queue r.node⟩ (m.net.kindAt r.node).outputIds
    ((m.hearing r.node).inputs r.side t)
  shapes : ∃ widthOf, (m.net.kindAt r.node).Shapes widthOf (width r.node) ∧
    ∀ σ x, (m.hearing r.node).Input r.side t σ x → (m.net.arena.row x).length = widthOf σ

omit [Cell V] [Std.TransOrd V] [Score S] in
/-- No node reads its own tuples. -/
theorem node_ne {p : NodeId} (hw : Network.Wired m.net width) (hp : (m.net.kindAt p).isBridge = false)
    (hr : r ∈ m.net.routesOf p) : r.node ≠ p := by
  obtain ⟨before, after, horder⟩ :=
    List.append_of_mem (hw.mem_order p (Network.lt_of_kindAt rfl hp))
  have hafter := hw.later p r before after hr horder
  have hnodup := hw.order_nodup
  rw [horder] at hnodup
  rintro rfl
  exact (List.nodup_cons.mp hnodup.of_append_right).1 hafter

theorem ready (h : Sound net₀ width m) (hw : Network.Wired net₀ width)
    (hp : m.phase = .telling id e t (r :: rs) ts ids) : Ready width m id e t r rs ids := by
  have hwired := hw.like h.like
  have hphase := h.phase
  simp only [InPhase, hp] at hphase
  obtain ⟨⟨before, horder⟩, hsettled, hann⟩ := hphase
  obtain ⟨heard, hreaders⟩ := hann.readers
  have hroute : r ∈ m.net.routesOf id := by
    rw [hreaders]
    exact List.mem_append_right _ List.mem_cons_self
  have hmaker := h.maker t hann.occupied
  rw [hann.owner] at hmaker
  have hother := node_ne hwired hmaker hroute
  have honce : r ∉ rs := by
    have hnodup := hwired.routes_nodup id
    rw [hreaders] at hnodup
    exact (List.nodup_cons.mp hnodup.of_append_right).1
  obtain ⟨hreader, hside⟩ := hwired.reader id r hroute
  have howned : r ∈ m.net.routesOf (m.owner t) := hann.owner.symm ▸ hroute
  have hwaiting : m.waiting r.node = m.net.queue r.node := by
    simp only [waiting, hp]
    exact Function.update_of_ne hother _ _
  obtain ⟨widthOf, hshapes, hwidth⟩ := hwired.shapes r.node
  refine ⟨hann, ⟨before, horder⟩, hsettled, howned, honce,
    hwired.later id r before ids hroute horder, hother, hreader, hside, ?_,
    ⟨hwaiting ▸ h.holdings.tended r.node, fun x hx => ?_, fun x hx hout => ?_⟩,
    widthOf, hshapes, fun σ x hx => ?_⟩
  · cases e with
    | insert => simp [Hearing.Expects, hearing, Knows, Told, hp]
    | update => exact ⟨hann.occupied, howned, by simp [Told, hp]⟩
    | retract => exact ⟨hann.occupied, howned, by simp [Told, hp]⟩
  · obtain ⟨σ, ⟨-, rfl⟩ | hx⟩ := hx
    · exact hann.occupied
    · exact hx.1
  · have howner := h.holdings.owner_out r.node x hout
    obtain ⟨σ, ⟨-, rfl⟩ | hx⟩ := hx
    · exact hother (howner.symm.trans hann.owner)
    · have hread := hx.2.1
      rw [howner] at hread
      exact node_ne hwired (howner ▸ h.maker x hx.1) hread rfl
  · rcases hx with ⟨rfl, rfl⟩ | hx
    · rw [h.widths x hann.occupied, hann.owner]
      exact (hwidth id r.side hroute hmaker).symm
    · rw [h.widths x hx.1]
      exact (hwidth _ σ hx.2.1 (h.maker x hx.1)).symm

/-- What the delivery of an event leads to at the reader. -/
theorem delivered [LawfulScore S] (h : Sound net₀ width m) (hw : Network.Wired net₀ width)
    (hr : Ready width m id e t r rs ids) :
    match (Network.deliver e t r).run.run m.net with
    | (.ok (), net') => ∃ k' s' ledger,
        (m.net.kindAt r.node).Heard (width r.node) ⟨m.net.arena, m.net.queue r.node⟩
          ((m.hearing r.node).hear r.side e t) k' s' ∧
        Network.Worked m.net r.node k' s' ledger net' ∧
        ledger.refs = m.net.ledger.refs ∧
        (m.net.ledger.Balances m.net.bags → ledger.Balances net'.bags)
    | (.error fault, _) => fault.node = r.node ∧
        (m.net.kindAt r.node).Trips r.side e m.net.arena.row t fault.fault := by
  have hwired := hw.like h.like
  obtain ⟨widthOf, hshapes, hin⟩ := hr.shapes
  exact Network.deliver_spec rfl hr.reader hwired.queues_size (hwired.constraint r.node)
    (h.books r.node) hr.expects hr.side hr.clear hshapes hin

/-- What a reader was told of a tuple still follows the protocol when it is told more. -/
theorem protocol_tell (h : Sound net₀ width m) (hr : Ready width m id e t r rs ids) (r' : Route)
    (x : TupleId) : ∃ b, Protocol ((m.record r e t).log r' x) b ∧
      (b = true ↔ Hears r e t m.Knows r' x) := by
  obtain ⟨b, hb, hiff⟩ := h.log r' x
  unfold record Hears
  simp only
  by_cases hself : r' = r ∧ x = t
  · obtain ⟨rfl, rfl⟩ := hself
    have hexpects := hr.expects
    rw [if_pos ⟨rfl, rfl⟩]
    cases e with
    | insert =>
        have hfalse : b = false := Bool.eq_false_iff.mpr fun hb' => hexpects (hiff.mp hb')
        exact ⟨true, .insert (hfalse ▸ hb), by simp⟩
    | update =>
        have htrue : b = true := hiff.mpr hexpects
        exact ⟨true, .update (htrue ▸ hb), by simp⟩
    | retract =>
        have htrue : b = true := hiff.mpr hexpects
        exact ⟨false, .retract (htrue ▸ hb), by simp⟩
  · rw [if_neg hself]
    refine ⟨b, hb, hiff.trans ?_⟩
    cases e <;> simp [hself]

omit [Cell V] [Std.TransOrd V] [Score S] in
theorem hear_iff (σ : Side) (x : TupleId) :
    (((m.hearing r.node).hear r.side e t).known σ x ↔ Hears r e t m.Knows ⟨r.node, σ⟩ x) ∧
      (((m.hearing r.node).hear r.side e t).fresh σ x ↔ Hears r e t m.Fresh ⟨r.node, σ⟩ x) := by
  have hroute : (⟨r.node, σ⟩ : Route) = r ↔ σ = r.side := by
    cases r
    simp
  unfold Hears
  rw [hroute]
  cases e <;> exact ⟨Iff.rfl, Iff.rfl⟩

omit [Cell V] [Std.TransOrd V] [Score S] in
/-- The work of a reader leaves the tuple it is told of as it is. -/
theorem Ready.announced_worked {W : Row V → Prop} {k' : NodeKind V S} {s' : Staging V}
    {ledger : Ledger S} (hr : Ready width m id e t r rs ids)
    (hk : Staging.Kept W ⟨m.net.arena, m.net.queue r.node⟩ (m.net.outs r.node) s' k'.outputIds)
    (hworked : Network.Worked m.net r.node k' s' ledger net) (hnet : m'.net = net)
    (howner : m'.owner = adopt m.net.arena net.arena r.node m.owner)
    (hwaiting : m'.waiting = Function.update m.waiting r.node s'.queue)
    (hnode : m.waiting r.node = m.net.queue r.node) : m'.Announced id e t rs := by
  have hann := hr.announced
  obtain ⟨heard, hreaders⟩ := hann.readers
  have houtput : t ∉ m.net.outs r.node :=
    hr.clear.apart t ((m.hearing r.node).inputs_self r.side t)
  have hnew : t ∉ k'.outputIds := fun ht =>
    (hk.outputs t ht).elim houtput fun hn => hn hann.occupied
  have houts : ∀ j, m'.net.outs j = if j = r.node then k'.outputIds else m.net.outs j := fun j => by
    rw [hnet, hworked.outs, Function.update_apply]
  refine ⟨?_, ?_, ?_, ⟨heard ++ [r], ?_⟩, fun hne => ?_, fun heq => ⟨fun j => ?_, fun j => ?_⟩⟩
  · rw [howner, Holdings.adopt_of_occupied hann.occupied, hann.owner]
  · rw [hnet, hworked.arena]
    exact hk.occupied t hann.occupied
  · rw [hnet, hworked.arena, hk.state_other t hann.occupied houtput, hann.state]
  · have hroutes : net.routesOf id = m.net.routesOf id := by
      unfold Network.routesOf
      rw [hworked.routes]
    rw [hnet, hroutes, hreaders, List.append_assoc]
    rfl
  · rw [houts, if_neg hr.other.symm]
    exact hann.out hne
  · rw [houts]
    split
    · exact hnew
    · exact (hann.gone heq).1 j
  · rw [hwaiting]
    by_cases hj : j = r.node
    · rw [hj, Function.update_self]
      have hnot := (hann.gone heq).2 r.node
      rw [hnode] at hnot
      intro ht
      rcases hk.queue_origin t ht with hq | hO | hn
      · exact hnot hq
      · exact houtput hO
      · exact hn hann.occupied
    · rw [Function.update_of_ne hj]
      exact (hann.gone heq).2 j

section Worked

variable {W : Row V → Prop} {k' : NodeKind V S} {s' : Staging V} {ledger : Ledger S}

omit [Cell V] [Std.TransOrd V] [Score S] in
theorem Ready.occupied_of_telling (hr : Ready width m id e t r rs ids)
    (hp : m.phase = .telling id e t (r :: rs) ts ids) (x : TupleId) (hx : m.telling? = some x) :
    m.net.arena.Occupied x := by
  simp only [telling?, hp] at hx
  exact Option.some.inj hx ▸ hr.announced.occupied

omit [Cell V] [Std.TransOrd V] [Score S] in
/-- The work of a reader does not change who reads the tuple it is told of. -/
theorem Ready.route_worked (hr : Ready width m id e t r rs ids)
    (hworked : Network.Worked m.net r.node k' s' ledger net) :
    r ∈ net.routesOf (adopt m.net.arena net.arena r.node m.owner t) := by
  unfold Network.routesOf
  rw [Holdings.adopt_of_occupied hr.announced.occupied, hworked.routes]
  exact hr.route

omit [Cell V] [Std.TransOrd V] [Score S] in
/-- What the nodes know once a reader has worked on the event it was told of. -/
theorem Ready.knows_worked (hr : Ready width m id e t r rs ids)
    (hp : m.phase = .telling id e t (r :: rs) ts ids)
    (hk : Staging.Kept W ⟨m.net.arena, m.net.queue r.node⟩ (m.net.outs r.node) s' k'.outputIds)
    (hworked : Network.Worked m.net r.node k' s' ledger net) (r' : Route) (x : TupleId) :
    ((m.worked r.node net (.telling id e t rs ts ids)).record r e t).Knows r' x ↔
      Hears r e t m.Knows r' x := by
  -- The moment between the reader's work and the end of the delivery.
  have hphase : (m.worked r.node net m.phase).phase = .telling id e t (r :: rs) ts ids := hp
  have hsame : (m.worked r.node net m.phase).Knows = m.Knows := funext₂ fun r' x => propext
    (Moment.knows_worked hk (hr.occupied_of_telling hp) hworked.arena hworked.routes)
  have hocc := hworked.arena ▸ hk.occupied t hr.announced.occupied
  exact (knows_tell hphase hocc (hr.route_worked hworked) hr.once).trans (by rw [hsame])

omit [Cell V] [Std.TransOrd V] [Score S] in
/-- What is fresh once a reader has worked was fresh before it, with the same row, or is what it was
told of. -/
theorem Ready.fresh_worked (hr : Ready width m id e t r rs ids)
    (hp : m.phase = .telling id e t (r :: rs) ts ids)
    (hk : Staging.Kept W ⟨m.net.arena, m.net.queue r.node⟩ (m.net.outs r.node) s' k'.outputIds)
    (hworked : Network.Worked m.net r.node k' s' ledger net) {r' : Route} {x : TupleId}
    (hx : ((m.worked r.node net (.telling id e t rs ts ids)).record r e t).Fresh r' x) :
    Hears r e t (fun r' x => m.Fresh r' x ∧ net.arena.row x = m.net.arena.row x) r' x := by
  have hphase : (m.worked r.node net m.phase).phase = .telling id e t (r :: rs) ts ids := hp
  have houtput : t ∉ m.net.outs r.node :=
    hr.clear.apart t ((m.hearing r.node).inputs_self r.side t)
  have hstate : net.arena.state t = e.announced := by
    rw [hworked.arena, hk.state_other t hr.announced.occupied houtput, hr.announced.state]
  have hocc := hworked.arena ▸ hk.occupied t hr.announced.occupied
  refine (fresh_tell hphase hocc (hr.route_worked hworked) hr.once hstate hx).mono fun hold => ?_
  exact Moment.fresh_worked hk (hr.occupied_of_telling hp) hworked.arena hworked.routes hold

end Worked

theorem tell [LawfulScore S] (h : Sound net₀ width m) (hw : Network.Wired net₀ width)
    (hp : m.phase = .telling id e t (r :: rs) ts ids)
    (he : Network.Ends (Network.deliver e t r) m.net () net) :
    Sound net₀ width ((m.worked r.node net (.telling id e t rs ts ids)).record r e t) := by
  have hr := h.ready hw hp
  have hspec := h.delivered hw hr
  rw [he] at hspec
  obtain ⟨k', s', ledger, hheard, hworked, hrefs, hbalances⟩ := hspec
  have hnode : m.waiting r.node = m.net.queue r.node := by
    simp only [waiting, hp]
    exact Function.update_of_ne hr.other _ _
  have hk := hheard.work.kept hr.clear.tended
  have hwaiting : ((m.worked r.node net (.telling id e t rs ts ids)).record r e t).waiting =
      Function.update m.waiting r.node s'.queue := by
    simp only [waiting, worked, record, hp]
    rw [hworked.queue, Function.update_comm hr.other.symm]
  have hknows := hr.knows_worked hp hk hworked
  obtain ⟨before, horder⟩ := hr.order
  refine h.of_work hheard.work hworked hheard.blank ?_ hrefs (hbalances h.balances) hnode ?_ rfl
    ?_ (fun r' x hne => ((hknows r' x).trans (hears_of_node_ne hne)).symm)
    (fun r' x hne hx => (hears_of_node_ne hne).mp (hr.fresh_worked hp hk hworked hx)) ?_
    h.facts_distinct (fun n hn => ?_) (fun j n _ _ k _ => ?_) (fun r' x => ?_)
    ⟨⟨before, ?_⟩, ?_, ?_⟩
  · exact NodeKind.isBridge_of_isReader hr.reader
  · exact hwaiting
  · simp only [telling?, worked, record, hp]
  · refine NodeKind.Books.frame hheard.books (fun σ x => ?_) (fun σ x hx => ?_) fun x _ => ?_
    · exact (hear_iff σ x).1.trans (hknows ⟨r.node, σ⟩ x).symm
    · refine ⟨(hear_iff σ x).2.mpr ((hr.fresh_worked hp hk hworked hx).mono And.left), ?_⟩
      exact congrFun (congrArg Arena.row hworked.arena) x
    · exact congrFun (congrArg Arena.row hworked.arena) x
  · have hreader := hr.reader
    rw [← NodeKind.isReader_blank, ← hheard.blank, hn] at hreader
    cases hreader
  · simp only [factsFor, worked, record, hp]
  · obtain ⟨b, hb, hiff⟩ := h.protocol_tell hr r' x
    exact ⟨b, hb, hiff.trans (hknows r' x).symm⟩
  · exact hworked.order.trans horder
  · obtain ⟨before', horder', hempty⟩ := hr.settled
    refine ⟨before', hworked.order.trans horder', fun j hj => ?_⟩
    have hne : j ≠ r.node := by
      rintro rfl
      have hnodup := (hw.like h.like).order_nodup
      rw [horder'] at hnodup
      exact (List.nodup_append.mp hnodup).2.2 _ hj _ hr.later rfl
    exact (congrFun hworked.queue j).trans ((Function.update_of_ne hne _ _).trans (hempty j hj))
  · exact hr.announced_worked hk hworked rfl rfl hwaiting hnode

end Sound

end Moment

end ConstraintScoring
