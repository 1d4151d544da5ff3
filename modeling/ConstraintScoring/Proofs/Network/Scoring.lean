import ConstraintScoring.Network.Report
import ConstraintScoring.Proofs.Network.Sound

/-!
# The nodes that score

Every active constraint has one node that scores it, and no other constraint has one. So the total
of an active constraint is that of the impacts recorded by its node, the totals of all others are
zero, and the score is the sum of the totals of the active constraints.
-/

namespace ConstraintScoring

variable {V S : Type}

/-- Balanced ledgers have equal totals for equal impacts. -/
theorem Ledger.Balances.total_eq [Score S] [LawfulScore S] {l l' : Ledger S}
    {bags bags' : Nat → Multiset S} {c c' : Nat} {total total' : ConstraintTotal S}
    (h : l.Balances bags) (h' : l'.Balances bags') (ht : l.totals[c]? = some total)
    (ht' : l'.totals[c']? = some total') (hbags : bags c = bags' c') :
    total.score = total'.score ∧ total.matchCount = total'.matchCount := by
  obtain ⟨hscore, hcount⟩ := h.total c total ht
  obtain ⟨hscore', hcount'⟩ := h'.total c' total' ht'
  refine ⟨Score.level_inj ?_, ?_⟩
  · rw [hscore, hscore', hbags]
  · rw [hcount, hcount', hbags]

namespace Network

/-- The nodes that score, one for each active constraint. -/
structure Scoring (g : DeclarationGraph V S) (net : Network V S) : Prop where
  node : ∀ i ∈ g.activeConstraints, ∃ id n, net.kindAt id = .score n ∧ n.constraint = i
  active : ∀ id n, net.kindAt id = .score n → n.constraint ∈ g.activeConstraints
  unique : ∀ id id' n n', net.kindAt id = .score n → net.kindAt id' = .score n' →
    n.constraint = n'.constraint → id = id'

/-- What a node scores for does not change. -/
theorem Like.score {net₀ net : Network V S} {id : NodeId} {n : ScoreNode V S} (h : Like net₀ net)
    (hn : net.kindAt id = .score n) : ∃ n₀, net₀.kindAt id = .score n₀ ∧ n₀.Alike n := by
  have hblank := h.blank id
  rw [hn] at hblank
  cases hk : net₀.kindAt id with
  | score n₀ =>
      rw [hk] at hblank
      obtain ⟨hconstraint, himpact, hweight, hweigher, -⟩ :=
        ScoreNode.mk.inj (NodeKind.score.inj hblank)
      exact ⟨n₀, rfl, hconstraint, himpact, hweight, hweigher⟩
  | _ =>
      rw [hk] at hblank
      cases hblank

theorem Scoring.like {g : DeclarationGraph V S} {net₀ net : Network V S} (h : Scoring g net₀)
    (hlike : Like net₀ net) : Scoring g net := by
  refine ⟨fun i hi => ?_, fun id n hn => ?_, fun id id' n n' hn hn' hc => ?_⟩
  · obtain ⟨id, n, hn, hni⟩ := h.node i hi
    obtain ⟨n', hn', halike⟩ := hlike.symm.score hn
    exact ⟨id, n', hn', halike.constraint.symm.trans hni⟩
  · obtain ⟨n₀, hn₀, halike⟩ := hlike.score hn
    rw [halike.constraint]
    exact h.active id n₀ hn₀
  · obtain ⟨n₀, hn₀, halike⟩ := hlike.score hn
    obtain ⟨n₀', hn₀', halike'⟩ := hlike.score hn'
    exact h.unique id id' n₀ n₀' hn₀ hn₀'
      (halike.constraint.symm.trans (hc.trans halike'.constraint))


namespace Scoring

variable {g : DeclarationGraph V S} {net : Network V S} {id : NodeId} {n : ScoreNode V S} {i : Nat}

/-- The impacts of an active constraint are those that its node has recorded. -/
theorem bags_eq (h : Scoring g net) (hn : net.kindAt id = .score n) :
    net.bags n.constraint = n.bag := by
  have hid : id ∈ Finset.range net.nodes.size := Finset.mem_range.mpr (lt_of_kindAt hn rfl)
  unfold bags
  rw [Finset.sum_eq_single_of_mem id hid fun id' _ hne => ?_, hn]
  · exact if_pos rfl
  · cases hk : net.kindAt id' with
    | score n' =>
        refine if_neg fun hc => hne ?_
        exact h.unique id' id n' n hk hn hc
    | _ => rfl

/-- Nothing is recorded for a constraint that is not active. -/
theorem bags_eq_zero (h : Scoring g net) (hi : i ∉ g.activeConstraints) : net.bags i = 0 := by
  refine Finset.sum_eq_zero fun id _ => ?_
  cases hk : net.kindAt id with
  | score n =>
      refine if_neg fun hc => hi ?_
      exact hc ▸ h.active id n hk
  | _ => rfl

theorem scoreNode?_eq (h : Scoring g net) (hn : net.kindAt id = .score n) :
    net.scoreNode? n.constraint = some (id, n) := by
  obtain ⟨node, hnode, hkind⟩ := node_of_kindAt hn rfl
  have hother : ∀ id' p, (net.nodes[id']?.bind (scoreNodeOf n.constraint)).map
      (fun n => (id', n)) = some p → p = (id, n) := by
    intro id' p hp
    obtain ⟨n', hn', rfl⟩ := Option.map_eq_some_iff.mp hp
    obtain ⟨node', hnode', hn'⟩ := Option.bind_eq_some_iff.mp hn'
    unfold scoreNodeOf at hn'
    split at hn'
    · rename_i n'' hkind'
      split at hn'
      · rename_i hc
        obtain rfl := Option.some.inj hn'
        have hkindAt : net.kindAt id' = .score n'' := by
          unfold kindAt
          rw [hnode', Option.map_some, Option.getD_some, hkind']
        obtain rfl := h.unique id' id n'' n hkindAt hn hc
        rw [NodeKind.score.inj (hkindAt.symm.trans hn)]
      · cases hn'
    · cases hn'
  unfold scoreNode?
  cases hfind : (List.range net.nodes.size).findSome? fun id' =>
      (net.nodes[id']?.bind (scoreNodeOf n.constraint)).map fun n => (id', n) with
  | some p =>
      obtain ⟨id', -, hp⟩ := List.exists_of_findSome?_eq_some hfind
      rw [hother id' p hp]
  | none =>
      have hnone := List.findSome?_eq_none_iff.mp hfind id
        (List.mem_range.mpr (lt_of_kindAt hn rfl))
      rw [hnode] at hnone
      simp [scoreNodeOf, hkind] at hnone

end Scoring

end Network

end ConstraintScoring
