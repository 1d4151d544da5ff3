import ConstraintScoring.Proofs.Network.Agreement
import ConstraintScoring.Proofs.Network.Ownership
import ConstraintScoring.Proofs.Network.Scoring

/-!
# What can stop a network

A node that knows its inputs has evaluated its functions on their rows, and its conditions on the
pairs of them with equal keys. So when a network propagates changes towards facts with which another
one of the same graph has settled, its nodes look at rows that were evaluated there already, as long
as the groups on the way can be compared. Then nothing stops it but a number that leaves its range,
or conditions that are tried on a row and on another one of which the node has not heard everything
yet.
-/

namespace ConstraintScoring

variable {V S : Type}

/-- The other side. -/
def Side.opposite : Side → Side
  | .left => .right
  | .right => .left

theorem JoinNode.index_opposite [Cell V] (n : JoinNode V) (side : Side) :
    n.index side.opposite = n.opposite side := by cases side <;> rfl

theorem ExistsNode.index_opposite [Cell V] (n : ExistsNode V) (side : Side) :
    n.index side.opposite = n.opposite side := by cases side <;> rfl

section Likes

variable [Cell V] {β : Type} {R : β → β → Prop}

/-- What does not fail on a row does not fail on an equal one. -/
theorem Alike.not_error {f : Row V → Except Fault β} {row row' : Row V} {fault : Fault}
    (h : ConstraintScoring.Alike .outcomes R f) (hsame : SameRow row row')
    (hok : ∃ b, f row' = .ok b) : f row ≠ .error fault := by
  obtain ⟨b, hb⟩ := ((h row row' hsame).outcomes rfl).mpr hok
  rw [hb]
  exact nofun

/-- What was asked of the rows of a node does not fail when the node hears of a row that is equal to
one of them; a retraction asks nothing. -/
theorem Alike.not_tripped {f : Row V → Except Fault β} {rows : Multiset (Row V)} {row : Row V}
    {e : Event} {fault : Fault} (h : ConstraintScoring.Alike .outcomes R f)
    (ht : ∀ row ∈ rows, ∃ b, f row = .ok b)
    (hrow : e ≠ .retract → ∃ row' ∈ rows, SameRow row row') :
    ¬(e ≠ .retract ∧ f row = .error fault) := by
  rintro ⟨he, herror⟩
  obtain ⟨row', hmem, hsame⟩ := hrow he
  exact h.not_error hsame (ht row' hmem) herror

theorem AllFit.of_same {cs cs' : List (Contribution V)} {ks : List CollectorKind}
    (h : AllFit cs' ks) (hsame : List.Forall₂ Contribution.Same cs cs') : AllFit cs ks := by
  induction hsame generalizing ks with
  | nil => exact h
  | cons hc _ ih =>
      cases h with
      | cons hfit hrest => exact .cons (hc.fits hfit) (ih hrest)

/-- A grouping whose inputs have keys and contributions that fit is stopped by a sum only. -/
theorem GroupNode.Trips.sums {n : GroupNode V} {rows : Multiset (Row V)} {row : Row V} {e : Event}
    {fault : Fault} (h : n.Trips e row fault)
    (halike : ConstraintScoring.Alike .outcomes SameMember n.member)
    (ht : ∀ row ∈ rows, ∃ m, n.member row = .ok m ∧ AllFit m.contributions n.kinds)
    (hrow : e ≠ .retract → ∃ row' ∈ rows, SameRow row row') : SumFault fault := by
  refine h.resolve_right ?_
  rintro ⟨he, hfails⟩
  obtain ⟨row', hmem, hsame⟩ := hrow he
  obtain ⟨m', hm', hfit⟩ := ht row' hmem
  rcases hfails with herror | ⟨m, hm, hmisfit⟩
  · exact halike.not_error hsame ⟨m', hm'⟩ herror
  · have hmembers := (halike _ _ hsame).results m m' hm hm'
    exact hmisfit (hfit.of_same hmembers.contributions)

end Likes

namespace JoinIndexer

variable [Cell V] {j : JoinIndexer V} {L R' : Multiset (Row V)} {l l' r r' : Row V}

/-- On a pair that is equal to one that was tried the conditions do not fail. -/
theorem Tried.accepts_ok [Std.TransOrd V] (h : j.Tried L R') (halike : j.Alike .outcomes)
    (hl : l' ∈ L) (hr : r' ∈ R') (hll : SameRow l l') (hrr : SameRow r r') (hm : j.Meets l r) :
    ∃ passes, j.accepts l r = .ok passes := by
  obtain ⟨k, k', hk, hk', heq⟩ := hm
  obtain ⟨a, ha⟩ := h.left l' hl
  obtain ⟨b, hb⟩ := h.right r' hr
  have hka := (halike.key .left l l' hll).results k a hk ha
  have hkb := (halike.key .right r r' hrr).results k' b hk' hb
  exact ((halike.accepts hll hrr).outcomes rfl).mpr
    (h.pair l' hl r' hr ⟨a, b, ha, hb, BEq.trans (BEq.symm hka) (BEq.trans heq hkb)⟩)

variable {R : Side → Multiset (Row V)} {others : TupleIndex V} {side : Side}
  {ρ : TupleId → Row V} {t : TupleId} {f : Fault} {known fresh : TupleId → Prop}

/-- If the row of the tuple was evaluated, the conditions fail on it and a row that was not, or whose
tuple is kept under an old key. -/
theorem FailsOn.apart [Std.TransOrd V] (h : j.FailsOn others side ρ t f)
    (halike : j.Alike .outcomes) (ht : j.Tried (R .left) (R .right)) (hholds : others.Holds known)
    (hkeys : ∀ o, fresh o → ∃ k k', others.keys.get? o = some k ∧
      j.key side.opposite (ρ o) = .ok k' ∧ (k == k') = true)
    (hrow : ∃ row ∈ R side, SameRow (ρ t) row) :
    ∃ o, known o ∧ j.accepts (ρ (JoinNode.oriented side t o).1)
      (ρ (JoinNode.oriented side t o).2) = .error f ∧
      (fresh o → ∀ row ∈ R side.opposite, ¬SameRow (ρ o) row) := by
  obtain ⟨row, hmem, hsame⟩ := hrow
  have hkey : ∃ k, j.key side (ρ t) = .ok k := by
    refine ((halike.key side _ _ hsame).outcomes rfl).mpr ?_
    cases side with
    | left => exact ht.left row hmem
    | right => exact ht.right row hmem
  obtain ⟨k, hk⟩ := hkey
  rcases h with hfails | ⟨k', hk', o, ho, hfails⟩
  · rw [hk] at hfails
    cases hfails
  obtain rfl := Except.ok.inj (hk.symm.trans hk')
  refine ⟨o, hholds.known_of_mem ho, hfails, fun hfresh row' hmem' hsame' => ?_⟩
  obtain ⟨kept, k', hkept, hk', heq⟩ := hkeys o hfresh
  obtain ⟨kept', hkept', heq'⟩ := (hholds.mem_withKey o k).mp ho
  obtain rfl := Option.some.inj (hkept.symm.trans hkept')
  have hpasses : ∃ passes, j.accepts (ρ (JoinNode.oriented side t o).1)
      (ρ (JoinNode.oriented side t o).2) = .ok passes := by
    cases side with
    | left =>
        exact ht.accepts_ok halike hmem hmem' hsame hsame'
          ⟨k, k', hk, hk', BEq.trans (BEq.symm heq') heq⟩
    | right =>
        exact ht.accepts_ok halike hmem' hmem hsame' hsame
          ⟨k', k, hk', hk, BEq.trans (BEq.symm heq) heq'⟩
  obtain ⟨passes, hpasses⟩ := hpasses
  rw [hpasses] at hfails
  cases hfails

end JoinIndexer

namespace NodeKind

section Kinds

variable [Cell V] [Score S]

/-- A node can evaluate the rows of its inputs. -/
def Tried (R : Side → Multiset (Row V)) : NodeKind V S → Prop
  | filter n => ∀ row ∈ R .left, ∃ passes, n.accepts row = .ok passes
  | map n => ∀ row ∈ R .left, ∃ image, n.image row = .ok image
  | flatten n => ∀ row ∈ R .left, ∃ images, n.images row = .ok images
  | join n => n.indexer.Tried (R .left) (R .right)
  | «exists» n => n.indexer.Tried (R .left) (R .right)
  | group n => ∀ row ∈ R .left, ∃ m, n.member row = .ok m ∧ AllFit m.contributions n.kinds
  | score n => ∀ row ∈ R .left, ∃ impact, n.impactOf row = .ok impact
  | source _ | foreBridge _ | aftBridge | concat _ => True

omit [Score S] in
/-- A number that the node computes leaves its range. -/
def Overflows (f : Fault) : NodeKind V S → Prop
  | group _ => SumFault f
  | score _ => ∃ step, f = .overflow step
  | _ => False

omit [Cell V] [Score S] in
/-- The texts of numbers that leave their range. -/
theorem Overflows.message {k : NodeKind V S} {message : String} (h : k.Overflows (.raised message)) :
    message = "Addition overflowed" ∨ message = "Subtraction overflowed" := by
  unfold Overflows at h
  split at h
  · rcases h with h | h | h | h <;> cases h
    · exact Or.inl rfl
    · exact Or.inr rfl
  · obtain ⟨step, hstep⟩ := h
    cases hstep
  · exact h.elim

/-- The keys and conditions of a join or an existence. -/
def indexer? : NodeKind V S → Option (JoinIndexer V)
  | join n => some n.indexer
  | «exists» n => some n.indexer
  | _ => none

/-- The conditions of the node fail on the rows of two tuples. -/
def Clashes (k : NodeKind V S) (side : Side) (ρ : TupleId → Row V) (t o : TupleId) (f : Fault) :
    Prop :=
  ∃ j, k.indexer? = some j ∧ j.accepts (ρ (JoinNode.oriented side t o).1)
    (ρ (JoinNode.oriented side t o).2) = .error f

variable {k k' : NodeKind V S} {R : Side → Multiset (Row V)} {j : JoinIndexer V}

theorem tried_blank : k.blank.Tried R ↔ k.Tried R := by cases k <;> rfl

omit [Cell V] [Score S] in
theorem isBridge_of_indexer (h : k.indexer? = some j) : k.isBridge = false := by
  cases k <;> first | rfl | cases h

theorem Tried.pairs (h : k.Tried R) (hj : k.indexer? = some j) : j.Tried (R .left) (R .right) := by
  cases k <;> cases hj <;> exact h

variable [Std.TransOrd V] {h : Hearing} {ρ : TupleId → Row V} {inputs : Side → List TupleId}
  {side : Side} {e : Event} {t : TupleId} {f : Fault} {op : Operation V}
  {g : DeclarationGraph V S} {domain : DomainModel V}

/-- What an informed node knows it has evaluated. -/
theorem Books.tried (hb : k.Books h ρ) (hi : h.Informed inputs) :
    k.Tried fun σ => rowsOf ρ (inputs σ) := by
  have hmem : ∀ row ∈ rowsOf ρ (inputs .left), ∃ t, h.fresh .left t ∧ ρ t = row := by
    intro row hrow
    obtain ⟨t, ht, rfl⟩ := List.mem_map.mp (Multiset.mem_coe.mp hrow)
    exact ⟨t, hi.fresh .left t ht, rfl⟩
  cases k with
  | filter n => exact (FilterNode.Books.filtered hb hi).1
  | map n =>
      intro row hrow
      obtain ⟨image, -, himage⟩ :=
        Multiset.exists_mem_of_rel_of_mem (MapNode.Books.mapped hb hi) hrow
      exact ⟨image, himage⟩
  | flatten n =>
      intro row hrow
      obtain ⟨lists, hlists, -⟩ := FlattenNode.Books.flattened hb hi
      obtain ⟨images, -, himages⟩ := Multiset.exists_mem_of_rel_of_mem hlists hrow
      rw [n.images_eq]
      exact ⟨images, himages⟩
  | join n => exact JoinNode.Books.tried hb hi
  | «exists» n => exact ExistsNode.Books.tried hb hi
  | group n =>
      have hb : n.Books h ρ := hb
      intro row hrow
      obtain ⟨t, ht, rfl⟩ := hmem row hrow
      obtain ⟨m, hm, hok⟩ := hb.fresh t ht
      exact ⟨m, hok, hb.sound.fits m (Table.mem_values_of_get? hm)⟩
  | score n =>
      have hb : n.Books h ρ := hb
      intro row hrow
      obtain ⟨t, ht, rfl⟩ := hmem row hrow
      obtain ⟨impact, -, hok⟩ := hb.fresh t ht
      exact ⟨impact, hok⟩
  | source n | foreBridge side | aftBridge | concat n => trivial

/-- A join or an existence that can evaluate its inputs is stopped by a row that is equal to one of
them only on a row of the other side that is not equal to one of them or that it has not heard
everything about. -/
theorem Trips.clashes {heard : Hearing} (h : k.Trips side e ρ t f) (hj : k.indexer? = some j)
    (halike : j.Alike .outcomes) (hb : k.Books heard ρ) (ht : k.Tried R)
    (hrow : e ≠ .retract → ∃ row ∈ R side, SameRow (ρ t) row) :
    ∃ o, heard.known side.opposite o ∧ k.Clashes side ρ t o f ∧
      (heard.fresh side.opposite o → ∀ row ∈ R side.opposite, ¬SameRow (ρ o) row) := by
  have hpairs := ht.pairs hj
  cases k with
  | join n | «exists» n =>
      obtain rfl := Option.some.inj hj
      have hb : n.Books heard ρ := hb
      have hindex := n.index_opposite side
      obtain ⟨o, hknown, hfails, hapart⟩ := JoinIndexer.FailsOn.apart h.2 halike hpairs
        (hindex ▸ hb.holds side.opposite) (hindex ▸ hb.keys side.opposite) (hrow h.1)
      exact ⟨o, hknown, ⟨_, rfl, hfails⟩, hapart⟩
  | _ => cases hj

/-- A node that can evaluate the rows of its inputs is stopped by a row that is equal to one of them
only if a number leaves its range, or on a row of the other side that is not equal to one of them or
that it has not heard everything about. -/
theorem Trips.apart {heard : Hearing} (h : k.Trips side e ρ t f)
    (hperforms : Network.Performs g domain k op) (halike : op.Alike .outcomes)
    (hweigh : ∀ c ∈ g.constraints, WeighsAlike .outcomes c.weigher) (hb : k.Books heard ρ)
    (ht : k.Tried R) (hside : k.isSingle → side = .left)
    (hrow : e ≠ .retract → ∃ row ∈ R side, SameRow (ρ t) row) :
    k.Overflows f ∨ ∃ o, heard.known side.opposite o ∧ k.Clashes side ρ t o f ∧
      (heard.fresh side.opposite o → ∀ row ∈ R side.opposite, ¬SameRow (ρ o) row) := by
  cases op with
  | filter accepts =>
      obtain ⟨n, rfl, rfl⟩ := hperforms
      obtain rfl := hside rfl
      exact absurd h (Alike.not_tripped halike ht hrow)
  | map columns =>
      obtain ⟨n, rfl, rfl⟩ := hperforms
      obtain rfl := hside rfl
      exact absurd h ((columns_alike halike).not_tripped ht hrow)
  | flattenLast expand =>
      obtain ⟨n, rfl, rfl⟩ := hperforms
      obtain rfl := hside rfl
      exact absurd h ((n.images_eq ▸ expansion_alike halike).not_tripped ht hrow)
  | join indexer =>
      obtain ⟨n, rfl, rfl⟩ := hperforms
      exact Or.inr (h.clashes rfl halike hb ht hrow)
  | «exists» shouldExist indexer =>
      obtain ⟨n, rfl, rfl, rfl⟩ := hperforms
      exact Or.inr (h.clashes rfl halike hb ht hrow)
  | group keys collectors =>
      obtain ⟨n, rfl, rfl, rfl⟩ := hperforms
      obtain rfl := hside rfl
      exact Or.inl (GroupNode.Trips.sums h (membership_alike halike.1 halike.2) ht hrow)
  | score constraint =>
      obtain ⟨c, n, hc, rfl, -, -, -, hweigher⟩ := hperforms
      obtain rfl := hside rfl
      have himpact : ConstraintScoring.Alike .outcomes Eq n.impactOf :=
        ScoreNode.impactOf_alike (hweigher ▸ hweigh c (Array.mem_of_getElem? hc))
      exact Or.inl (Or.resolve_right h (himpact.not_tripped ht hrow))
  | source type includeUnassigned =>
      obtain ⟨c, n, -, rfl, -⟩ := hperforms
      exact False.elim h
  | concat =>
      obtain ⟨n, rfl⟩ := hperforms
      exact False.elim h
  | foreBridge _ | aftBridge =>
      rw [show k = _ from hperforms] at h
      exact False.elim h

end Kinds

end NodeKind

namespace Moment

variable [Cell V] [Std.TransOrd V] [Score S] {net₀ net : Network V S} {width : NodeId → Nat}
  {m m' : Moment V S} {id p : NodeId} {e : Event} {t x : TupleId} {r : Route} {rs : List Route}
  {ts : List TupleId} {ids before : List NodeId} {g : DeclarationGraph V S}
  {domain : DomainModel V} {fault : NetworkFault}

namespace Sound

/-- While readers are told of a tuple, the nodes before its own are done. -/
theorem settledTo (h : Sound net₀ width m) (hw : Network.Wired net₀ width)
    (hp : m.phase = .telling id e t rs ts ids) :
    ∃ before, m.net.order = before ++ id :: ids ∧ m.SettledTo before := by
  have hphase := h.phase
  simp only [InPhase, hp] at hphase
  obtain ⟨⟨before, horder⟩, hsettled, hann⟩ := hphase
  have hne : ∀ p ∈ before, p ≠ id := by
    have hnodup := (hw.like h.like).order_nodup
    rw [horder] at hnodup
    exact fun p hp => (List.nodup_append.mp hnodup).2.2 p hp id List.mem_cons_self
  refine ⟨before, horder, ⟨_, horder⟩, fun p hpb => ⟨?_, fun x hx => ?_⟩, fun _ => ?_⟩
  · simp only [waiting, hp]
    rw [Function.update_of_ne (hne p hpb),
      queues_taken horder hsettled p (List.mem_append_left _ hpb)]
  · simp only [telling?, hp] at hx
    rw [← Option.some.inj hx, hann.owner]
    exact (hne p hpb).symm
  · simp only [factsFor, hp]

/-- A tuple of which a reader knows everything is an output of its owner. -/
theorem out_of_fresh (h : Sound net₀ width m) (hx : m.Fresh r x) : x ∈ m.net.outs (m.owner x) := by
  rcases h.holdings.covered x hx.1.1 with hout | hwaiting | htelling
  · exact hout
  · have hpending := (h.holdings.tended _).queue_pending x hwaiting
    rw [show m.net.arena.state x = .ok from hx.2.1] at hpending
    cases hpending
  · obtain ⟨id, e, rs, ts, ids, hp⟩ := telling?_eq_some htelling
    have hann := h.announced hp
    have hstate := hann.state
    rw [hx.2.1] at hstate
    rw [hann.owner]
    refine hann.out ?_
    rintro rfl
    cases hstate

end Sound

/-- A moment of a network with facts equal to those with which another network of the same graph has
settled at the second moment. -/
structure Retraces (g : DeclarationGraph V S) (domain : DomainModel V) (net₀ : Network V S)
    (width : NodeId → Nat) (m m' : Moment V S) : Prop where
  compiled : Network.Compiled g domain net₀
  formed : Formed g.declarations
  wired : Network.Wired net₀ width
  operations : ∀ id c, declaredIn g.declarations id = some c → c.operation.Alike .outcomes
  weighers : ∀ c ∈ g.constraints, WeighsAlike .outcomes c.weigher
  sound : Sound net₀ width m
  settled : Sound net₀ width m'
  idle : m'.Idle
  facts : Multiset.Rel SameFact (factsIn m.facts) (factsIn m'.facts)

namespace Retraces

/-- The rows of a node whose turn has come are equal to those that it has in the settled network. -/
theorem outs_agree (h : Retraces g domain net₀ width m m') (hs : m.SettledTo before)
    (ht : m.Turn before id) (hx : x ∈ m.net.outs id) (hcmp : m.net.ComparableAt m'.net id id) :
    Multiset.Rel SameRow (rowsOf m.net.arena.row (m.net.outs id))
      (rowsOf m'.net.arena.row (m'.net.outs id)) := by
  have hlike := h.sound.like
  have hlike' := h.settled.like
  have hmaker := h.sound.maker x (h.sound.holdings.occupied_out hx)
  rw [h.sound.holdings.owner_out id x hx, hlike.isBridge] at hmaker
  have hscore : ∀ n, net₀.kindAt id ≠ .score n := by
    intro n hn
    obtain ⟨n', hn', -⟩ := hlike.symm.score hn
    rw [Network.outs_of_kindAt hn'] at hx
    cases hx
  obtain ⟨a, ha, -⟩ := Network.node_of_kindAt rfl hmaker
  obtain ⟨d, hd, -⟩ := h.compiled.candidate ha
  obtain ⟨q, hq⟩ := h.formed.unfolds a.decl (lt_of_declaredIn hd)
  have hbridge : ¬net₀.IsBridge id := Bool.eq_false_iff.mp hmaker
  have hturn : m'.Turn m'.net.order id := by
    refine Or.inl ((h.wired.like hlike').mem_order id ?_)
    rw [hlike'.nodes_size]
    exact Network.lt_of_kindAt rfl hmaker
  have hyields := h.sound.yields h.wired h.compiled h.formed hs ha ht hbridge hscore hq
  have hyields' := h.settled.yields h.wired h.compiled h.formed h.idle.settledTo ha hturn hbridge
    hscore hq
  exact hyields.agree hyields' (hq.alike fun i c hc => (h.operations i c hc).weaken) h.facts hcmp.agree

/-- A row that a node whose turn has come offers to a reader is equal to one that the reader has in
the settled network. -/
theorem counterpart {σ : Side} (h : Retraces g domain net₀ width m m') (hs : m.SettledTo before)
    (ht : m.Turn before id) (hx : x ∈ m.net.outs id) (hr : ⟨p, σ⟩ ∈ m.net.routesOf id)
    (hcmp : m.net.ComparableAt m'.net p p) :
    ∃ row ∈ rowsOf m'.net.arena.row (m'.inputs p σ), SameRow (m.net.arena.row x) row := by
  have hlike := h.sound.like
  have hlike' := h.settled.like
  have hmaker := h.sound.maker x (h.sound.holdings.occupied_out hx)
  rw [h.sound.holdings.owner_out id x hx] at hmaker
  have hroute : ⟨p, σ⟩ ∈ m'.net.routesOf id := by
    rwa [hlike'.routesOf, ← hlike.routesOf]
  have hmaker' : (m'.net.kindAt id).isBridge = false := by
    rw [hlike'.isBridge, ← hlike.isBridge, hmaker]
  rw [inputs_eq (h.wired.like hlike') hmaker' hroute]
  exact Multiset.exists_mem_of_rel_of_mem
    (h.outs_agree hs ht hx (hcmp.feeder hmaker hmaker' hr hroute))
    (Multiset.mem_coe.mpr (List.mem_map_of_mem hx))

/-- A node has evaluated the rows of its inputs once the network has settled. -/
theorem tried (h : Retraces g domain net₀ width m m') (hp : (m.net.kindAt p).isBridge = false) :
    (m.net.kindAt p).Tried fun σ => rowsOf m'.net.arena.row (m'.inputs p σ) := by
  have hlike := h.sound.like
  have hlike' := h.settled.like
  have hwired := h.wired.like hlike'
  have hplaced : (m'.net.kindAt p).isBridge = false := by
    rw [hlike'.isBridge, ← hlike.isBridge, hp]
  have hinformed := h.settled.informed hwired h.idle.settledTo.order h.idle.settledTo.done
    (Or.inl (hwired.mem_order p (Network.lt_of_kindAt rfl hplaced)))
  rw [← NodeKind.tried_blank, hlike.blank, ← hlike'.blank, NodeKind.tried_blank]
  exact NodeKind.Books.tried (h.settled.books p) hinformed

/-- A tuple of which a reader knows everything, of a node whose turn has come, has a row equal to one
that the reader has in the settled network. -/
theorem known {σ : Side} (h : Retraces g domain net₀ width m m')
    (hphase : m.phase = .telling id e t rs ts ids) (hx : m.Fresh ⟨p, σ⟩ x)
    (howner : m.owner x ∉ ids) (hcmp : m.net.ComparableAt m'.net p p) :
    ∃ row ∈ rowsOf m'.net.arena.row (m'.inputs p σ), SameRow (m.net.arena.row x) row := by
  obtain ⟨before, horder, hs⟩ := h.sound.settledTo h.wired hphase
  have hwired := h.wired.like h.sound.like
  have hturn : m.Turn before (m.owner x) := by
    have hmem := hwired.mem_order (m.owner x) (Network.lt_of_kindAt rfl (h.sound.maker x hx.1.1))
    rw [horder, List.mem_append, List.mem_cons] at hmem
    rcases hmem with hmem | hmem | hmem
    · exact Or.inl hmem
    · exact Or.inr ⟨ids, hmem ▸ horder⟩
    · exact absurd hmem howner
  exact h.counterpart hs hturn (h.sound.out_of_fresh hx) hx.1.2.1 hcmp

/-- The row that readers are told of is equal to one that each of them has in the settled network. -/
theorem told (h : Retraces g domain net₀ width m m')
    (hphase : m.phase = .telling id e t (r :: rs) ts ids)
    (hcmp : m.net.ComparableAt m'.net r.node r.node) (he : e ≠ .retract) :
    ∃ row ∈ rowsOf m'.net.arena.row (m'.inputs r.node r.side), SameRow (m.net.arena.row t) row := by
  obtain ⟨before, horder, hs⟩ := h.sound.settledTo h.wired hphase
  have hr := h.sound.ready h.wired hphase
  have hann := hr.announced
  exact h.counterpart hs (Or.inr ⟨ids, horder⟩) (hann.out he) (hann.owner ▸ hr.route) hcmp

/-- A delivery is stopped by nothing but a number that leaves its range, or by conditions that fail on
the row of a tuple that waits to be changed, or that was made by a node whose turn has not come. -/
theorem stopped [LawfulScore S] (h : Retraces g domain net₀ width m m')
    (hphase : m.phase = .telling id e t (r :: rs) ts ids) (hstop : m.StopsAt fault net) :
    fault.node = r.node ∧ (m.net.ComparableAt m'.net r.node r.node →
      (m.net.kindAt r.node).Overflows fault.fault ∨
      ∃ o, m.Knows ⟨r.node, r.side.opposite⟩ o ∧
        (m.net.kindAt r.node).Clashes r.side m.net.arena.row t o fault.fault ∧
        (m.Fresh ⟨r.node, r.side.opposite⟩ o → m.owner o ∈ ids)) := by
  have hr := h.sound.ready h.wired hphase
  have hspec := h.sound.delivered h.wired hr
  unfold StopsAt at hstop
  simp only [hphase] at hstop
  rw [hstop] at hspec
  obtain ⟨hnode, htrips⟩ := hspec
  have hreader := NodeKind.isBridge_of_isReader hr.reader
  obtain ⟨a, ha, -⟩ := Network.node_of_kindAt rfl (h.sound.like.isBridge r.node ▸ hreader)
  obtain ⟨d, hd, hperforms⟩ := Sound.performs h.sound.like h.compiled ha
  refine ⟨hnode, fun hcmp => (htrips.apart hperforms (h.operations _ d hd) h.weighers
    (h.sound.books r.node) (h.tried hreader) hr.side (h.told hphase hcmp)).imp_right ?_⟩
  rintro ⟨o, hknown, hclash, hapart⟩
  refine ⟨o, hknown, hclash, fun hfresh => by_contra fun howner => ?_⟩
  obtain ⟨row, hrow, hsame⟩ := h.known hphase hfresh howner hcmp
  exact hapart hfresh row hrow hsame

end Retraces

end Moment

end ConstraintScoring
