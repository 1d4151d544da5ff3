import ConstraintScoring.Network.Report
import ConstraintScoring.Proofs.Network.Opening
import ConstraintScoring.Proofs.Node.Sparing

/-!
# Where a network halts

A fault comes with the node at which it happened and what the node looked at. The node is the one
whose turn it was, and what it looked at is as it was when its turn came, because the node itself
leaves it alone.
-/

namespace ConstraintScoring

variable {V S : Type}

namespace Network

variable {net net' : Network V S} {id : NodeId} {t : TupleId} {stop : NetworkFault}

section Stopped

variable {work : Stage V (NodeKind V S)} {P : NodeKind V S → Prop} {fault : Fault}

theorem workAt_graph {x : Except Fault Unit} (h : net.workAt id work = (x, net')) :
    net'.graph = net.graph := by
  unfold workAt at h
  simp only at h
  split at h <;> obtain ⟨-, rfl⟩ := Prod.mk.inj h <;> rfl

theorem workAt_row (hs : work.Spares t P) (ht : net.arena.Occupied t)
    (h : net.workAt id work = (.error fault, net')) : net'.arena.row t = net.arena.row t := by
  unfold workAt at h
  simp only at h
  split at h
  · cases h
  · rename_i hrun
    obtain ⟨-, rfl⟩ := Prod.mk.inj h
    have hspared := hs ⟨net.arena, net.queues.getD id #[]⟩ ht
    rw [hrun] at hspared
    exact hspared.2.1

theorem answer_error {subject : Network V S → String} {x : Except Fault Unit × Network V S}
    (h : answer id subject x = (.error stop, net')) :
    x = (.error stop.fault, net') ∧ stop.node = id ∧ stop.subject = subject net' := by
  obtain ⟨fault | ⟨⟩, net₁⟩ := x
  · obtain ⟨hstop, rfl⟩ := Prod.mk.inj h
    obtain rfl := Except.error.inj hstop
    exact ⟨rfl, rfl, rfl⟩
  · cases h

variable [Cell V]

theorem stageAt_fails {change : SourceNode V → Fact V → Stage V (SourceNode V)} {f : Fact V}
    (h : (stageAt change f id).run.run net = (.error stop, net')) :
    stop.node = id ∧ stop.subject = Cell.label f.cell ∧ net'.nodes = net.nodes ∧
      net'.graph = net.graph := by
  unfold stageAt at h
  simp only [ExceptT.run_mk, StateT.run] at h
  split at h
  · split at h
    · cases h
    · rename_i hrun
      obtain ⟨hstop, rfl⟩ := Prod.mk.inj h
      obtain rfl := Except.error.inj hstop
      exact ⟨rfl, rfl, (workAt_error hrun).1, workAt_graph hrun⟩
  · cases h

variable [Score S] {e : Event} {r : Route}

/-- A reader that is stopped has worked on the event, or it scores and has changed nothing. -/
theorem deliver_fails (h : (deliver e t r).run.run net = (.error stop, net')) :
    stop.node = r.node ∧ stop.subject = Cell.rowLabel (net'.arena.row t) ∧
      (net' = net ∨ net.workAt r.node ((net.kindAt r.node).onEvent r.side e t) =
        (.error stop.fault, net')) := by
  cases hnode : net.nodes[r.node]? with
  | none =>
      unfold deliver at h
      simp only [ExceptT.run_mk, StateT.run, hnode] at h
      cases h
  | some node =>
      by_cases hscore : ∃ n, node.kind = .score n
      · obtain ⟨n, hn⟩ := hscore
        rw [deliver_run_score hnode hn] at h
        obtain ⟨hrun, hid, hsubject⟩ := answer_error h
        refine ⟨hid, hsubject, Or.inl ?_⟩
        unfold scoreAt at hrun
        split at hrun <;> cases hrun
        rfl
      · rw [deliver_run_work hnode fun n hn => hscore ⟨n, hn⟩] at h
        obtain ⟨hrun, hid, hsubject⟩ := answer_error h
        exact ⟨hid, hsubject, Or.inr (kindAt_of_node hnode ▸ hrun)⟩

theorem deliver_graph (h : (deliver e t r).run.run net = (.error stop, net')) :
    net'.graph = net.graph := by
  obtain ⟨-, -, rfl | hrun⟩ := deliver_fails h
  · rfl
  · exact workAt_graph hrun

/-- A reader that is stopped leaves the row that it was told of as it is. -/
theorem deliver_row (ht : net.arena.Occupied t) (hout : t ∉ net.outs r.node)
    (h : (deliver e t r).run.run net = (.error stop, net')) :
    net'.arena.row t = net.arena.row t := by
  obtain ⟨-, -, rfl | hrun⟩ := deliver_fails h
  · rfl
  · exact workAt_row (NodeKind.onEvent_spares hout) ht hrun

end Stopped

section Explaining

variable {c : ConstraintDef V S} {i : Nat}

/-- The node that is found for a constraint scores it. -/
theorem kindAt_of_scoreNode? {n : ScoreNode V S} (h : net.scoreNode? i = some (id, n)) :
    net.kindAt id = .score n ∧ n.constraint = i := by
  obtain ⟨id', -, hfound⟩ := List.exists_of_findSome?_eq_some h
  obtain ⟨n', hn', hpair⟩ := Option.map_eq_some_iff.mp hfound
  obtain ⟨rfl, rfl⟩ := Prod.mk.inj hpair
  obtain ⟨node, hnode, hn'⟩ := Option.bind_eq_some_iff.mp hn'
  unfold scoreNodeOf at hn'
  split at hn'
  · rename_i n'' hkind
    split at hn'
    · rename_i hc
      obtain rfl := Option.some.inj hn'
      exact ⟨(kindAt_of_node hnode).trans hkind, hc⟩
    · cases hn'
  · cases hn'

variable [Cell V]

/-- Of the matches of a constraint the first one that cannot be explained is reported. -/
theorem explainAll_stopped {live : List (TupleId × S)} (h : net.explainAll id c live = .error stop) :
    stop.node = id ∧ ∃ earlier t impact rest, live = earlier ++ (t, impact) :: rest ∧
      (∃ matched, net.explainAll id c earlier = .ok matched) ∧
      stop.subject = Cell.rowLabel (net.arena.row t) ∧
      explainMatch c (net.arena.row t) impact = .error stop.fault := by
  induction live with
  | nil => cases h
  | cons entry live ih =>
      obtain ⟨t, impact⟩ := entry
      unfold explainAll at h
      split at h
      · rename_i fault hfault
        obtain rfl := Except.error.inj h
        exact ⟨rfl, [], t, impact, live, rfl, ⟨[], rfl⟩, rfl, hfault⟩
      · rename_i m hm
        rcases Outcome.bind_eq_error.mp h with h | ⟨_, -, h⟩
        · obtain ⟨hid, earlier, t', impact', rest, rfl, ⟨ms, hms⟩, hstopped⟩ := ih h
          refine ⟨hid, (t, impact) :: earlier, t', impact', rest, rfl, ⟨m :: ms, ?_⟩, hstopped⟩
          unfold explainAll
          rw [hm, hms]
          rfl
        · cases h

/-- Of the constraints the first one with a match that cannot be explained is reported. -/
theorem analysesFrom_stopped {constraints : List Nat}
    (h : net.analysesFrom constraints = .error stop) :
    ∃ before later n c, constraints = before ++ n.constraint :: later ∧
      (∃ analyses, net.analysesFrom before = .ok analyses) ∧ net.kindAt stop.node = .score n ∧
      net.graph.constraints[n.constraint]? = some c ∧
      net.explainAll stop.node c (n.impacts.entries.mergeSort fun a b => a.1 ≤ b.1) =
        .error stop := by
  induction constraints with
  | nil => cases h
  | cons i rest ih =>
      unfold analysesFrom at h
      split at h
      · rename_i id n c total hnode hc htotal
        obtain ⟨hn, rfl⟩ := kindAt_of_scoreNode? hnode
        rcases Outcome.bind_eq_error.mp h with h | ⟨a, ha, h⟩
        · rcases Outcome.bind_eq_error.mp h with h | ⟨_, -, h⟩
          · obtain rfl := (explainAll_stopped h).1
            exact ⟨[], rest, n, c, rfl, ⟨[], rfl⟩, hn, hc, h⟩
          · cases h
        · rcases Outcome.bind_eq_error.mp h with h | ⟨_, -, h⟩
          · obtain ⟨before, later, n', c', rfl, ⟨analyses, hanalyses⟩, hstopped⟩ := ih h
            refine ⟨n.constraint :: before, later, n', c', rfl, ⟨a :: analyses, ?_⟩, hstopped⟩
            unfold analysesFrom
            simp only [hnode, hc, htotal, ha, hanalyses]
            rfl
          · cases h
      · rename_i hnone
        obtain ⟨before, later, n', c', rfl, ⟨analyses, hanalyses⟩, hstopped⟩ := ih h
        refine ⟨i :: before, later, n', c', rfl, ⟨analyses, ?_⟩, hstopped⟩
        unfold analysesFrom
        split
        · rename_i hnode hc htotal
          exact absurd htotal (hnone _ _ _ _ hnode hc)
        · exact hanalyses

end Explaining

end Network

namespace Moment

variable [Cell V] [Score S]

/-- The network halts at the moment and is left like this, because a node runs into a fault while it
looks at something: the source whose turn it is to take note of a fact, the reader whose turn it is to
be told of a tuple, or the node that scores a constraint, once everything is propagated, while one of
its matches is explained. -/
inductive Halts (m : Moment V S) : NetworkFault → Network V S → Prop where
  | staging {c f id ids n fault net} : m.phase = .staging c f (id :: ids) →
      m.net.kindAt id = .source n → n.accepts f = .error fault →
      m.StopsAt ⟨id, Cell.label f.cell, fault⟩ net → Halts m ⟨id, Cell.label f.cell, fault⟩ net
  | telling {id e t r rs ts ids fault net} : m.phase = .telling id e t (r :: rs) ts ids →
      (m.net.kindAt r.node).Trips r.side e m.net.arena.row t fault →
      m.StopsAt ⟨r.node, Cell.rowLabel (m.net.arena.row t), fault⟩ net →
      Halts m ⟨r.node, Cell.rowLabel (m.net.arena.row t), fault⟩ net
  | explaining {id n c before later earlier t impact rest fault} : m.Idle →
      m.net.graph.activeConstraints = before ++ n.constraint :: later →
      (∃ analyses, m.net.analysesFrom before = .ok analyses) → m.net.kindAt id = .score n →
      m.net.graph.constraints[n.constraint]? = some c →
      (n.impacts.entries.mergeSort fun a b => a.1 ≤ b.1) = earlier ++ (t, impact) :: rest →
      (∃ matched, m.net.explainAll id c earlier = .ok matched) →
      Network.explainMatch c (m.net.arena.row t) impact = .error fault →
      Halts m ⟨id, Cell.rowLabel (m.net.arena.row t), fault⟩ m.net

variable {m : Moment V S} {stop : NetworkFault} {net : Network V S}

/-- A network that has settled halts at a node that scores. -/
theorem halts_of_analyses (hidle : m.Idle) (h : m.net.analyses = .error stop) :
    m.Halts stop m.net := by
  obtain ⟨before, later, n, c, hactive, hbefore, hn, hc, hall⟩ := Network.analysesFrom_stopped h
  obtain ⟨-, earlier, t, impact, rest, hlive, hearlier, hsubject, hfault⟩ :=
    Network.explainAll_stopped hall
  have hstop : stop = ⟨stop.node, Cell.rowLabel (m.net.arena.row t), stop.fault⟩ := hsubject ▸ rfl
  rw [hstop]
  exact .explaining hidle hactive hbefore hn hc hlive hearlier hfault

/-- A network halts at one of its nodes. -/
theorem Halts.exists_node (h : m.Halts stop net) : ∃ a, m.net.nodes[stop.node]? = some a := by
  have htrips : ∀ {k : NodeKind V S} {side : Side} {e : Event} {ρ : TupleId → Row V} {t : TupleId}
      {fault : Fault}, k.Trips side e ρ t fault → k.isBridge = false := by
    intro k side e ρ t fault htrips
    cases k <;> first | rfl | exact htrips.elim
  have hplain : (m.net.kindAt stop.node).isBridge = false := by
    cases h with
    | staging _ hn _ _ | explaining _ _ _ hn _ _ _ _ => rw [hn]; rfl
    | telling _ h _ => exact htrips h
  obtain ⟨a, ha, -⟩ := Network.node_of_kindAt rfl hplain
  exact ⟨a, ha⟩

/-- A fault leaves the nodes with what they have recorded. -/
theorem StopsAt.kept (h : m.StopsAt stop net) :
    net.nodes = m.net.nodes ∧ net.graph = m.net.graph := by
  unfold StopsAt at h
  split at h
  · exact (Network.stageAt_fails h).2.2
  · exact ⟨(Network.deliver_error h).1, Network.deliver_graph h⟩
  · exact h.elim

theorem Halts.kept (h : m.Halts stop net) : net.nodes = m.net.nodes ∧ net.graph = m.net.graph := by
  cases h with
  | staging _ _ _ hstop | telling _ _ hstop => exact hstop.kept
  | explaining _ _ _ _ _ _ _ _ => exact ⟨rfl, rfl⟩

variable [Std.TransOrd V] [LawfulScore S] {net₀ : Network V S} {width : NodeId → Nat}

/-- A network that is stopped halts at the node whose turn it was, and what is reported with it is what
the node was to look at. -/
theorem StopsAt.halts (h : m.StopsAt stop net) (hs : Sound net₀ width m)
    (hw : Network.Wired net₀ width) : m.Halts stop net := by
  have hstop := h
  obtain ⟨node, subject, fault⟩ := stop
  unfold StopsAt at h
  split at h
  · rename_i c f id ids hp
    obtain ⟨n, hn, hensures⟩ := hs.source_ready hw hp
    have hspec := Network.stageAt_spec hn (hw.like hs.like).queues_size hensures
    obtain ⟨rfl, rfl, -⟩ := Network.stageAt_fails h
    rw [h] at hspec
    exact .staging hp hn hspec.2 hstop
  · rename_i id e t r rs ts ids hp
    have hr := hs.ready hw hp
    have hspec := hs.delivered hw hr
    have hout : t ∉ m.net.outs r.node :=
      hr.clear.apart t ((m.hearing r.node).inputs_self r.side t)
    have hrow := Network.deliver_row hr.announced.occupied hout h
    obtain ⟨rfl, rfl, -⟩ := Network.deliver_fails h
    rw [h] at hspec
    rw [hrow] at hstop ⊢
    exact .telling hp hspec.2 hstop
  · exact h.elim

end Moment

end ConstraintScoring
