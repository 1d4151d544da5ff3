import ConstraintScoring.Proofs.Network.Resting
import ConstraintScoring.Proofs.Node.Tidy

/-!
# Networks without facts

A network that has settled for no facts at all holds nothing, however many facts it has seen: its
sources have no tuples, so no node has heard of any, and tidy nodes keep no entry besides what they
have heard of.
-/

namespace ConstraintScoring

variable {V S : Type}

namespace Table

variable {κ β : Type} [BEq κ] [ReflBEq κ] {T : Table κ β}

theorem eq_empty_of_get? (h : ∀ k, T.get? k = none) : T = .empty := by
  obtain ⟨_ | ⟨e, es⟩⟩ := T
  · rfl
  · have he := get?_eq_none_iff.mp (h e.1) e List.mem_cons_self
    rw [BEq.rfl] at he
    cases he

/-- A table whose keys are those of an empty one. -/
theorem Within.eq_empty {γ : Type} {U : Table κ γ} (h : T.Within U) (hU : U = .empty) :
    T = .empty := by
  refine eq_empty_of_get? fun k => Option.not_isSome_iff_eq_none.mp fun hk => ?_
  have hnone := h k hk
  rw [hU] at hnone
  cases hnone

end Table

theorem TupleIndex.eq_empty [Cell V] [Std.TransOrd V] {x : TupleIndex V} {known : TupleId → Prop}
    (h : x.Holds known) (hf : x.Filled) (hknown : ∀ t, ¬known t) : x = .empty := by
  have hkeys : x.keys = .empty := Table.eq_empty_of_get? fun t => h.get?_eq_none (hknown t)
  have hbuckets : x.buckets = .empty := by
    refine Table.eq_empty_of_get? fun k => ?_
    cases hk : x.buckets.get? k with
    | none => rfl
    | some ids =>
        have hempty : ids = [] := List.eq_nil_iff_forall_not_mem.mpr fun t ht =>
          hknown t (h.known_of_mem (k := k) (by simpa [withKey, Table.getD, hk] using ht))
        exact absurd (hempty ▸ hk) (hf k)
  obtain ⟨keys, buckets⟩ := x
  exact congrArg₂ _ hkeys hbuckets

namespace NodeKind

/-- A node without tuples in any of its tables. Groups may have left accumulators to be used again,
each as good as new. -/
def HoldsNothing [Cell V] : NodeKind V S → Prop
  | source n => n.outputs = .empty
  | filter n => n.outputs = .empty
  | map n => n.outputs = .empty
  | flatten n => n.outputs = .empty
  | concat n => n.outputs = .empty
  | join n => n.left = .empty ∧ n.right = .empty ∧ n.byLeft = .empty ∧ n.byRight = .empty
  | «exists» n => n.left = .empty ∧ n.right = .empty ∧ n.lefts = .empty ∧ n.rights = .empty
  | group n => n.groups = .empty ∧ n.members = .empty ∧
      ∀ accumulators ∈ n.spare, accumulators = n.collectors.map fun c => .new c.kind
  | score n => n.impacts = .empty
  | foreBridge _ | aftBridge => True

variable [Cell V] {k : NodeKind V S} {h : Hearing} {ρ : TupleId → Row V}

theorem outputIds_of_holdsNothing (hk : k.HoldsNothing) : k.outputIds = [] := by
  cases k with
  | source n | filter n | map n | concat n => exact congrArg Table.values hk
  | flatten n => exact congrArg (fun T : Table TupleId (List TupleId) => T.values.flatten) hk
  | join n => exact congrArg Table.leaves hk.2.2.1
  | «exists» n =>
      exact congrArg (fun T : Table TupleId LeftEntry => T.values.filterMap (·.output)) hk.2.2.1
  | group n =>
      exact congrArg (fun T : Table (Key V) (GroupEntry V) => T.values.filterMap (·.output)) hk.1
  | score n | foreBridge side | aftBridge => rfl

theorem bagOf_of_holdsNothing {c : Nat} (hk : k.HoldsNothing) : k.bagOf c = 0 := by
  cases k with
  | score n =>
      have hk : n.impacts = .empty := hk
      have hbag : n.bag = 0 := congrArg (fun T : Table TupleId S => (T.values : Multiset S)) hk
      unfold bagOf
      exact ite_eq_right_iff.mpr fun _ => hbag
  | _ => rfl

variable [Std.TransOrd V] [Score S]

omit [Cell V] [Score S] [Std.TransOrd V] in
theorem SingleImages.eq_empty {κ : Type} [BEq κ] [LawfulBEq κ] {T : Table κ TupleId}
    {inputOf : κ → TupleId} {known fresh : κ → Prop} {image : Row V → Except Fault (List (Row V))}
    (hT : SingleImages T inputOf known fresh image ρ) (hknown : ∀ k, ¬known k) : T = .empty := by
  refine Table.eq_empty_of_get? fun k => ?_
  by_contra hsome
  obtain ⟨x, hx⟩ := Option.ne_none_iff_exists'.mp hsome
  exact hknown k (hT.images.known k (by simp [Table.single_of_some hx]))

/-- A tidy node that has heard of nothing, or whose inputs were all taken back, holds nothing. -/
theorem holdsNothing_of_unheard (hb : k.Books h ρ) (ht : k.Tidy) (hknown : ∀ σ t, ¬h.known σ t)
    (hsource : ∀ n, k = .source n → n.outputs = .empty) : k.HoldsNothing := by
  cases k with
  | source n => exact hsource n rfl
  | filter n => exact SingleImages.eq_empty hb (hknown .left)
  | map n => exact SingleImages.eq_empty hb (hknown .left)
  | concat n => exact SingleImages.eq_empty hb fun k => hknown k.1 k.2
  | flatten n =>
      refine Table.eq_empty_of_get? fun t => ?_
      cases hk : n.outputs.get? t with
      | none => rfl
      | some outs =>
          have hempty : outs = [] := by
            by_contra hne
            exact hknown .left t (hb.images.known t (by simpa [Table.getD, hk] using hne))
          exact absurd (hempty ▸ hk) (ht t)
  | join n =>
      have hleft := TupleIndex.eq_empty (hb.holds .left) ht.left (hknown .left)
      have hright := TupleIndex.eq_empty (hb.holds .right) ht.right (hknown .right)
      have hkeys : n.left.keys = .empty := congrArg TupleIndex.keys hleft
      have hkeys' : n.right.keys = .empty := congrArg TupleIndex.keys hright
      exact ⟨hleft, hright, ht.byLeft.eq_empty hkeys, ht.byRight.eq_empty hkeys'⟩
  | «exists» n =>
      have hleft := TupleIndex.eq_empty (hb.holds .left) ht.left (hknown .left)
      have hright := TupleIndex.eq_empty (hb.holds .right) ht.right (hknown .right)
      have hkeys' : n.right.keys = .empty := congrArg TupleIndex.keys hright
      refine ⟨hleft, hright, Table.eq_empty_of_get? fun l => ?_, ht.rights.eq_empty hkeys'⟩
      by_contra hsome
      exact hknown .left l ((hb.tally.known_iff l).mp (Option.ne_none_iff_exists'.mp hsome))
  | group n =>
      have hmembers : n.members = .empty := by
        refine Table.eq_empty_of_get? fun t => ?_
        by_contra hsome
        exact hknown .left t ((hb.known_iff t).mp (Option.ne_none_iff_exists'.mp hsome))
      refine ⟨Table.eq_empty_of_get? fun k => ?_, hmembers, fun as has => ?_⟩
      · cases hk : n.groups.get? k with
        | none => rfl
        | some entry =>
            have hsize := (hb.sound.entry k entry hk).size
            have hpos := (hb.sound.settled k entry hk id).1
            unfold GroupNode.membersWith at hsize
            rw [hmembers] at hsize
            exact absurd hsize hpos.ne'
      · rw [hb.sound.spare as has]
        exact List.map_map
  | score n =>
      refine Table.eq_empty_of_get? fun t => ?_
      by_contra hsome
      exact hknown .left t ((hb.known_iff t).mp (Option.ne_none_iff_exists'.mp hsome))
  | foreBridge side | aftBridge => trivial

end NodeKind

namespace Network

/-- Nothing is left in the network: no score, no matches, no tuples and no change that waits. -/
structure Cleared [Cell V] [Score S] (net : Network V S) : Prop where
  score : net.score = Score.zero
  total : ∀ (c : Nat) total, net.ledger.totals[c]? = some total →
    total.score = Score.zero ∧ total.matchCount = 0
  liveTuples : net.liveTuples = 0
  queue : ∀ id, net.queue id = #[]
  node : ∀ id, (net.kindAt id).HoldsNothing

variable [Cell V] [Std.TransOrd V] [Score S] {net net' : Network V S} {r : Route} {e : Event}
  {t : TupleId} {h : Hearing} {ρ : TupleId → Row V}

/-- A delivery keeps its reader tidy and does not touch the other nodes. -/
theorem deliver_tidy (htidy : ∀ id, (net.kindAt id).Tidy) (hb : (net.kindAt r.node).Books h ρ)
    (hreader : (net.kindAt r.node).isReader) (hqueues : net.queues.size = net.nodes.size)
    (hrun : Ends (deliver e t r) net () net') (id : NodeId) : (net'.kindAt id).Tidy := by
  have hbridge := NodeKind.isBridge_of_isReader hreader
  have hlt := lt_of_kindAt rfl hbridge
  obtain ⟨node, hnode, hkind⟩ := node_of_kindAt rfl hbridge
  unfold Ends at hrun
  by_cases hscore : ∃ n, node.kind = .score n
  · obtain ⟨n, hn⟩ := hscore
    rw [deliver_run_score hnode hn] at hrun
    unfold scoreAt at hrun
    split at hrun
    · obtain ⟨-, rfl⟩ := Prod.mk.inj hrun
      unfold kindAt
      rw [kindAt_modify hlt]
      split
      · trivial
      · exact htidy id
    · cases (Prod.mk.inj hrun).1
  · have hyields : (node.kind.onEvent r.side e t).Ensures ⟨net.arena, net.queue r.node⟩
        (fun k _ => k.Tidy) fun _ => True := by
      have hstays : ((net.kindAt r.node).onEvent r.side e t).Yields NodeKind.Tidy :=
        NodeKind.onEvent_tidy (htidy r.node) hb
      rw [← hkind] at hstays
      unfold Stage.Ensures
      rcases hwork : (node.kind.onEvent r.side e t).run.run ⟨net.arena, net.queue r.node⟩ with
        ⟨f | k, s⟩
      · trivial
      · exact hstays _ k s hwork
    have hspec := workAt_spec hyields hlt hqueues
    rw [deliver_run_work hnode fun n hn => hscore ⟨n, hn⟩] at hrun
    rcases hwork : net.workAt r.node (node.kind.onEvent r.side e t) with ⟨f | ⟨⟩, net₁⟩
    · rw [hwork] at hrun
      cases (Prod.mk.inj hrun).1
    · rw [hwork] at hrun hspec
      obtain ⟨-, rfl⟩ := Prod.mk.inj hrun
      obtain ⟨k', s', hk', hworked⟩ := hspec
      rw [hworked.kindAt, Function.update_apply]
      split
      · exact hk'
      · exact htidy id

end Network

namespace Moment

variable [Cell V] [Std.TransOrd V] [Score S] {net₀ : Network V S} {width : NodeId → Nat}
  {m m' : Moment V S}

/-- No step leaves an untidy node behind. -/
theorem Step.tidy (hs : Step m m') (h : Sound net₀ width m) (hw : Network.Wired net₀ width)
    (htidy : ∀ id, (m.net.kindAt id).Tidy) (id : NodeId) : (m'.net.kindAt id).Tidy := by
  cases hs with
  | note hp he =>
      rename_i c f j ids net
      obtain ⟨n, hn, hensures⟩ := h.source_ready hw hp
      have hspec := Network.stageAt_spec hn (hw.like h.like).queues_size hensures
      rw [he] at hspec
      obtain ⟨n', s', -, hworked⟩ := hspec
      change (net.kindAt id).Tidy
      rw [hworked.kindAt, Function.update_apply]
      split
      · trivial
      · exact htidy id
  | tell hp he =>
      exact Network.deliver_tidy htidy (h.books _) (h.ready hw hp).reader (hw.like h.like).queues_size
        he id
  | take hp he =>
      obtain ⟨-, rfl⟩ := Network.ends_takeQueue he
      exact htidy id
  | skip hp he | begin hp he =>
      rw [(Network.ends_beginTuple he).2]
      exact htidy id
  | drop hp he =>
      obtain rfl := Network.ends_releaseTuple he
      exact htidy id
  | change | noted | settle | told | pass | settled => exact htidy id

theorem Reachable.tidy [LawfulScore S] (hr : Reachable net₀ m) (hw : Network.Wired net₀ width)
    (hu : net₀.Unused) (id : NodeId) : (m.net.kindAt id).Tidy := by
  induction hr generalizing id with
  | start => exact NodeKind.tidy_of_blank (hu.blank id)
  | step hr hs ih => exact hs.tidy (hr.sound hw hu) hw ih id

namespace Sound

/-- When nothing waits and there are no facts, nodes hold nothing. Their turns come one after the
other: what a node has heard of is an output of a node whose turn came before. -/
theorem holdsNothing (h : Sound net₀ width m) (hw : Network.Wired net₀ width)
    (htidy : ∀ id, (m.net.kindAt id).Tidy) (hi : m.Idle) (hfacts : ∀ k, m.facts.get? k = none)
    (id : NodeId) : (m.net.kindAt id).HoldsNothing := by
  have hwm := hw.like h.like
  have hturns : ∀ before, (∃ later, m.net.order = before ++ later) → ∀ id ∈ before,
      (m.net.kindAt id).HoldsNothing := by
    intro before
    induction before using List.reverseRecOn with
    | nil => exact fun _ _ hid => by cases hid
    | append_singleton before x ih =>
        rintro ⟨later, horder⟩ id hid
        rw [List.append_assoc] at horder
        rcases List.mem_append.mp hid with hid | hid
        · exact ih ⟨x :: later, horder⟩ id hid
        · obtain rfl := List.mem_singleton.mp hid
          refine NodeKind.holdsNothing_of_unheard (h.books id) (htidy id) ?_ fun n hn => ?_
          · rintro σ t ⟨hocc, hroute, -⟩
            have howner : m.owner t ∈ before := Turn.feeder hwm (Or.inr ⟨later, horder⟩)
              ⟨id :: later, horder⟩ (h.maker t hocc) hroute
            have hnone : m.net.outs (m.owner t) = [] :=
              NodeKind.outputIds_of_holdsNothing (ih ⟨id :: later, horder⟩ _ howner)
            have hout := h.of_done (hi.done _) hocc rfl
            rw [hnone] at hout
            cases hout
          · refine Table.eq_empty_of_get? fun k => ?_
            by_contra hsome
            obtain ⟨out, hout⟩ := Option.ne_none_iff_exists'.mp hsome
            obtain ⟨-, cell, hcell⟩ := (h.reflects id n hn).backed k out hout
            rw [hi.settledTo.facts id, hfacts k] at hcell
            cases hcell
  rcases Nat.lt_or_ge id m.net.nodes.size with hlt | hge
  · exact hturns m.net.order ⟨[], (List.append_nil _).symm⟩ id (hwm.mem_order id hlt)
  · unfold Network.kindAt
    rw [Array.getElem?_eq_none hge]
    trivial

/-- A sound network of tidy nodes that nothing waits in is clear when there are no facts. -/
theorem cleared [LawfulScore S] (h : Sound net₀ width m) (hw : Network.Wired net₀ width)
    (htidy : ∀ id, (m.net.kindAt id).Tidy) (hi : m.Idle) (hfacts : ∀ k, m.facts.get? k = none) :
    m.net.Cleared := by
  have hnodes := h.holdsNothing hw htidy hi hfacts
  have hbags : ∀ c, m.net.bags c = 0 := fun c =>
    Finset.sum_eq_zero fun id _ => NodeKind.bagOf_of_holdsNothing (hnodes id)
  refine ⟨?_, fun c total htotal => ?_, ?_, hi.2, hnodes⟩
  · refine Score.level_inj (h.balances.score.trans ?_)
    rw [Score.level_zero]
    refine Finset.sum_eq_zero fun c _ => ?_
    rw [hbags c]
    rfl
  · obtain ⟨hscore, hcount⟩ := h.balances.total c total htotal
    rw [hbags c] at hscore hcount
    exact ⟨Score.level_inj (hscore.trans Score.level_zero.symm), hcount⟩
  · have hnone : ∀ t, ¬m.net.arena.Occupied t := fun t ht => by
      have hout := h.of_done (hi.done _) ht rfl
      rw [Network.outs, NodeKind.outputIds_of_holdsNothing (hnodes _)] at hout
      cases hout
    have hlive := h.holdings.valid.live_eq_length
    rw [List.filter_eq_nil_iff.mpr fun t _ => by simpa using hnone t] at hlive
    exact hlive

end Sound

end Moment

end ConstraintScoring
