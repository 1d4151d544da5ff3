import ConstraintScoring.Proofs.Network.Opening

/-!
# Settling after another network has settled

A network that settles with facts equal to those of a settled network of the same graph looks at rows
that were evaluated there. What can stop it besides numbers are the conditions of joins and
existences: tried on a row that waits to be changed, they meet a pair that the settled network never
evaluated. A network that settles for the first time has no such rows.
-/

namespace ConstraintScoring

variable {V S : Type} [Cell V] [Std.TransOrd V] [Score S]

section Networks

omit [Cell V] [Std.TransOrd V] [Score S] in
theorem Network.kindAt_of_nodes {net net' : Network V S} (h : net'.nodes = net.nodes) :
    net'.kindAt = net.kindAt := by
  funext id
  unfold kindAt
  rw [h]

omit [Cell V] [Std.TransOrd V] [Score S] in
/-- Paths lead through the nodes and routes of a network alone. -/
theorem Network.upstream_congr {net net' : Network V S} (hn : net'.nodes = net.nodes)
    (hr : net'.routes = net.routes) (id : NodeId) (path : List Side) (x : NodeId) :
    net'.Upstream id path x ↔ net.Upstream id path x := by
  induction path generalizing id with
  | nil => exact Iff.rfl
  | cons σ path ih =>
      refine exists_congr fun p => ?_
      rw [ih, kindAt_of_nodes hn, routesOf, routesOf, hr]

omit [Std.TransOrd V] [Score S] in
theorem Network.comparableAt_congr {net net' net₁ : Network V S} (hn : net'.nodes = net.nodes)
    (hr : net'.routes = net.routes) {id id' : NodeId} (h : net'.ComparableAt net₁ id id') :
    net.ComparableAt net₁ id id' := fun path x x' n n' hx hx' hkind =>
  h path x x' n n' ((upstream_congr hn hr id path x).mpr hx) hx' (kindAt_of_nodes hn ▸ hkind)

omit [Cell V] [Std.TransOrd V] [Score S] in
/-- A source has the same class and test in every network of one kind. -/
theorem Network.Like.source {net₀ net net' : Network V S} {id : NodeId} {n : SourceNode V}
    (hlike : Like net₀ net) (hlike' : Like net₀ net') (hn : net.kindAt id = .source n) :
    ∃ n', net'.kindAt id = .source n' ∧ n'.type = n.type ∧ n'.assignedOnly = n.assignedOnly := by
  have hblank := (hlike'.blank id).trans (hlike.blank id).symm
  rw [hn] at hblank
  cases hk : net'.kindAt id with
  | source n' =>
      rw [hk] at hblank
      have hn' := NodeKind.source.inj hblank
      exact ⟨n', rfl, congrArg (·.type) hn', congrArg (·.assignedOnly) hn'⟩
  | _ => rw [hk] at hblank; cases hblank

end Networks

omit [Cell V] [Std.TransOrd V] [Score S] in
/-- Only joins and existences have keys and conditions. -/
theorem Network.Performs.of_indexer {g : DeclarationGraph V S} {domain : DomainModel V}
    {k : NodeKind V S} {op : Operation V} {j : JoinIndexer V} (h : Performs g domain k op)
    (hj : k.indexer? = some j) : op = .join j ∨ ∃ shouldExist, op = .exists shouldExist j := by
  cases op with
  | join _ =>
      obtain ⟨n, rfl, rfl⟩ := h
      cases hj
      exact Or.inl rfl
  | «exists» shouldExist _ =>
      obtain ⟨n, rfl, -, rfl⟩ := h
      cases hj
      exact Or.inr ⟨shouldExist, rfl⟩
  | source _ _ | score _ =>
      obtain ⟨_, _, -, rfl, -⟩ := h
      cases hj
  | filter _ | map _ | flattenLast _ | group _ _ =>
      obtain ⟨_, rfl, -⟩ := h
      cases hj
  | concat =>
      obtain ⟨_, rfl⟩ := h
      cases hj
  | foreBridge _ | aftBridge =>
      rw [show k = _ from h] at hj
      cases hj

namespace Moment

variable {net₀ net : Network V S} {width : NodeId → Nat} {m m' m₁ : Moment V S} {id p : NodeId}
  {e : Event} {t o : TupleId} {r : Route} {rs : List Route} {ts : List TupleId} {ids : List NodeId}
  {g : DeclarationGraph V S} {domain : DomainModel V} {fault : NetworkFault} {f : Fault}
  {side : Side}

/-- What is evaluated next at the first moment was evaluated in the settled network of the second
one. The functions of a reader that is told of a tuple succeed on all rows and pairs that it has
there, and it has rows there that are equal to that of the tuple and to those of all tuples that it
knows on the other side. A source that is told of a fact has answered there whether it accepts it. -/
structure Repeats (m m' : Moment V S) : Prop where
  told : ∀ id e t r rs ts ids, m.phase = .telling id e t (r :: rs) ts ids →
    ((m'.net.kindAt r.node).Tried fun σ => rowsOf m'.net.arena.row (m'.inputs r.node σ)) ∧
    (∃ row ∈ rowsOf m'.net.arena.row (m'.inputs r.node r.side),
      SameRow (m.net.arena.row t) row) ∧
    ∀ o, m.Knows ⟨r.node, r.side.opposite⟩ o →
      ∃ row ∈ rowsOf m'.net.arena.row (m'.inputs r.node r.side.opposite),
        SameRow (m.net.arena.row o) row
  noted : ∀ c f id ids, m.phase = .staging c f (id :: ids) →
    ∃ n passes, m'.net.kindAt id = .source n ∧ n.accepts f = .ok passes

section Phases

omit [Std.TransOrd V]

theorem Via.reachable {P : Phase V → Prop} (hm : Reachable net₀ m) (h : Via P m m₁) :
    Reachable net₀ m₁ := by
  induction h with
  | refl => exact hm
  | tail _ hs ih => exact ih.step hs.1

theorem Via.facts_eq (h : Via Phase.Settling m m₁) : m₁.facts = m.facts := by
  induction h with
  | refl => rfl
  | tail _ hs ih =>
      obtain ⟨hs, hphase⟩ := hs
      rw [← ih]
      cases hs with
      | noted _ => exact False.elim hphase
      | _ => rfl

/-- Settling that is stopped was telling a reader of a tuple, and the nodes have recorded nothing. -/
theorem StopsAt.telling (h : StopsAt m fault net) (hm : m.phase.Settling) :
    ∃ id e t r rs ts ids, m.phase = .telling id e t (r :: rs) ts ids ∧
      net.nodes = m.net.nodes ∧ net.routes = m.net.routes := by
  unfold StopsAt at h
  split at h
  · rename_i hp
    rw [hp] at hm
    exact False.elim hm
  · rename_i hp
    exact ⟨_, _, _, _, _, _, _, hp, Network.deliver_error h⟩
  · exact False.elim h

end Phases

namespace Opening

variable [LawfulScore S]

theorem inserting {fs : List (Fact V)} (ho : m.Opening) (hm : Reachable net₀ m)
    (hw : Network.Wired net₀ width) (hu : net₀.Unused) (hp : m.phase = .rest)
    (h : Via (Phase.Inserting fs) m m₁) : m₁.Opening := by
  induction h with
  | refl => exact ho
  | tail hab hs ih =>
      refine ih.step ((Via.reachable hm hab).sound hw hu) hw hs.1 fun hlast => ?_
      rcases Via.phase hab (Or.inl hp) with hrest | ⟨f, -, sources, hstaging⟩
      · rw [hlast] at hrest
        cases hrest
      · rw [hlast] at hstaging
        cases hstaging

theorem settling (ho : m.Opening) (hm : Reachable net₀ m) (hw : Network.Wired net₀ width)
    (hu : net₀.Unused) (h : Via Phase.Settling m m₁) : m₁.Opening := by
  induction h with
  | refl => exact ho
  | tail hab hs ih =>
      obtain ⟨hs, hsettling⟩ := hs
      refine ih.step ((Via.reachable hm hab).sound hw hu) hw hs fun hlast => ?_
      cases hs with
      | settled _ => exact hsettling
      | change hp _ | note hp _ | noted hp | settle hp | take hp _ | skip hp _ | begin hp _
        | tell hp _ | told hp _ | drop hp _ | pass hp =>
          rw [hlast] at hp
          cases hp

end Opening

namespace Sound

/-- A source that is told of a fact of a settled network has answered there whether it accepts it. -/
theorem admits {c : FactChange} {x : Fact V} (h : Sound net₀ width m) (h' : Sound net₀ width m')
    (hi : m'.Idle) (hp : m.phase = .staging c x (id :: ids))
    (hx : m'.facts.get? x.key = some x.cell) : ∃ n n' passes, m.net.kindAt id = .source n ∧
      m'.net.kindAt id = .source n' ∧ n.accepts x = .ok passes ∧ n'.accepts x = .ok passes := by
  have hphase := h.phase
  simp only [InPhase, hp] at hphase
  obtain ⟨n, hn, htype⟩ := hphase.2.2 id List.mem_cons_self
  obtain ⟨n', hn', htype', honly⟩ := h.like.source h'.like hn
  have hreflects := h'.reflects id n' hn'
  simp only [factsFor, hi.1] at hreflects
  obtain ⟨passes, hpasses, -⟩ := hreflects.accepts x.key x.cell (htype'.trans htype).symm hx
  refine ⟨n, n', passes, hn, hn', ?_, hpasses⟩
  have haccepts : n.accepts x = n'.accepts x := by
    unfold SourceNode.accepts
    rw [honly]
  exact haccepts.trans hpasses

/-- Inserting the facts of a settled network stops at nothing. -/
theorem not_stopsAt {fs : List (Fact V)} (h : Sound net₀ width m) (hw : Network.Wired net₀ width)
    (h' : Sound net₀ width m') (hi : m'.Idle) (hm : m.phase.Inserting fs)
    (hfs : ∀ x ∈ fs, m'.facts.get? x.key = some x.cell) : ¬m.StopsAt fault net := by
  intro hstop
  rcases hm with hrest | ⟨x, hx, sources, hp⟩
  · simp only [StopsAt, hrest] at hstop
  · cases sources with
    | nil => simp only [StopsAt, hp] at hstop
    | cons id ids =>
        obtain ⟨n, -, passes, hn, -, hpasses, -⟩ := h.admits h' hi hp (hfs x hx)
        obtain ⟨n', hn', hensures⟩ := h.source_ready hw hp
        have hspec := Network.stageAt_spec hn' (hw.like h.like).queues_size hensures
        simp only [StopsAt, hp] at hstop
        rw [hstop] at hspec
        obtain rfl := NodeKind.source.inj (hn.symm.trans hn')
        rw [hpasses] at hspec
        cases hspec.2

/-- What is evaluated when the facts of a settled network are inserted was evaluated there. -/
theorem repeats {fs : List (Fact V)} (h : Sound net₀ width m) (h' : Sound net₀ width m')
    (hi : m'.Idle) (hm : m.phase.Inserting fs)
    (hfs : ∀ x ∈ fs, m'.facts.get? x.key = some x.cell) : m.Repeats m' where
  told id e t r rs ts ids hphase := by
    rcases hm with hrest | ⟨x, -, sources, hp⟩
    · rw [hrest] at hphase
      cases hphase
    · rw [hp] at hphase
      cases hphase
  noted c x id ids hphase := by
    rcases hm with hrest | ⟨y, hy, sources, hp⟩
    · rw [hrest] at hphase
      cases hphase
    · obtain ⟨rfl, rfl, -⟩ := Phase.staging.inj (hp.symm.trans hphase)
      obtain ⟨-, n', passes, -, hn', -, hpasses⟩ := h.admits h' hi hphase (hfs y hy)
      exact ⟨n', passes, hn', hpasses⟩

end Sound

namespace Retraces

/-- A join or an existence is fed on both sides, and its conditions treat equal rows alike. -/
theorem pairs {j : JoinIndexer V} (h : Retraces g domain net₀ width m m')
    (hj : (m.net.kindAt p).indexer? = some j) : j.Alike .outcomes ∧ ∃ q q' i i',
      Network.Compiled.Feeds g net₀ p .left q i ∧ Network.Compiled.Feeds g net₀ p .right q' i' := by
  have hbridge : ¬net₀.IsBridge p := by
    unfold Network.IsBridge
    rw [← h.sound.like.isBridge, NodeKind.isBridge_of_indexer hj]
    exact Bool.false_ne_true
  obtain ⟨a, ha, -⟩ := Network.node_of_kindAt rfl (Bool.eq_false_iff.mpr hbridge)
  obtain ⟨d, hd, hperforms⟩ := Sound.performs h.sound.like h.compiled ha
  have hop := hperforms.of_indexer hj
  have hparents : ∃ l r, d.key.parents = [l, r] := by
    have hshape := h.formed.shape a.decl d hd
    rcases hop with hop | ⟨shouldExist, hop⟩ <;> rw [hop] at hshape <;>
      obtain ⟨l, r, hparents, -⟩ := hshape <;> exact ⟨l, r, hparents⟩
  obtain ⟨l, r, hparents⟩ := hparents
  have hquery : ∀ x ∈ d.key.parents, ∃ q, Unfolds (declaredIn g.declarations) x q := fun x hx =>
    h.formed.unfolds x (Nat.lt_trans (h.formed.parents_lt a.decl d hd x hx) (lt_of_declaredIn hd))
  obtain ⟨q, hq⟩ := hquery l (by simp [hparents])
  obtain ⟨q', hq'⟩ := hquery r (by simp [hparents])
  obtain ⟨⟨i, hfeeds⟩, i', hfeeds'⟩ :=
    h.compiled.feeds_two h.formed hbridge ha hd hparents hq hq'
  refine ⟨?_, q, q', i, i', hfeeds, hfeeds'⟩
  have hall := h.operations _ d hd
  rcases hop with hop | ⟨shouldExist, hop⟩ <;> rw [hop] at hall <;> exact hall

/-- Settling for the first time is stopped by nothing but a number that leaves its range. -/
theorem overflows [LawfulScore S] (h : Retraces g domain net₀ width m m') (ho : m.Opening)
    (hm : m.phase.Settling) (hstop : m.StopsAt fault net)
    (hcmp : net.ComparableAt m'.net fault.node fault.node) :
    (net.kindAt fault.node).Overflows fault.fault := by
  obtain ⟨id, e, t, r, rs, ts, ids, hphase, hnodes, hroutes⟩ := hstop.telling hm
  obtain ⟨hnode, hstopped⟩ := h.stopped hphase hstop
  rw [hnode] at hcmp ⊢
  rw [Network.kindAt_of_nodes hnodes]
  refine (hstopped (Network.comparableAt_congr hnodes hroutes hcmp)).resolve_right ?_
  rintro ⟨o, hknows, -, hlater⟩
  obtain ⟨hfresh, hdone⟩ := ho.fresh h.sound hphase hknows
  exact hdone (hlater hfresh)

/-- What is evaluated when a network settles for the first time was evaluated in the settled
network. -/
theorem repeats (h : Retraces g domain net₀ width m m') (ho : m.Opening) (hm : m.phase.Settling)
    (hcmp : m.net.Comparable m'.net) : m.Repeats m' where
  told id e t r rs ts ids hphase := by
    obtain rfl := ho.event _ _ _ _ _ _ hphase
    have hcmp := hcmp.at h.wired h.sound.like h.settled.like r.node
    have hr := h.sound.ready h.wired hphase
    have htried := h.tried (NodeKind.isBridge_of_isReader hr.reader)
    rw [← NodeKind.tried_blank, h.sound.like.blank, ← h.settled.like.blank,
      NodeKind.tried_blank] at htried
    refine ⟨htried, h.told hphase hcmp (by decide), fun o hknows => ?_⟩
    obtain ⟨hfresh, hdone⟩ := ho.fresh h.sound hphase hknows
    exact h.known hphase hfresh hdone hcmp
  noted c f id ids hphase := by
    rw [hphase] at hm
    exact False.elim hm

end Retraces

end Moment

end ConstraintScoring
