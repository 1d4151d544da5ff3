import ConstraintScoring.Network.Compile
import ConstraintScoring.Proofs.Graph.Shape
import ConstraintScoring.Proofs.Outcome
import ConstraintScoring.Proofs.Table.Distinct
import Mathlib.Data.List.Nodup

/-!
# The nodes of a compiled graph

Compiling makes one node for each active declaration, in the order of the declarations, below the
nodes of its parents.
-/

namespace ConstraintScoring.Network

variable {V S : Type} {g : DeclarationGraph V S} {domain : DomainModel V}

/-- The nodes of the declarations that have been gone through. -/
structure Planned (g : DeclarationGraph V S) (domain : DomainModel V) (ds : List DeclId)
    (plan : Plan V S) : Prop where
  decls : plan.nodes.toList.map (·.decl) = ds
  nodeOf : ∀ (decl : DeclId) (i : NodeId),
    plan.nodeOf.get? decl = some i ↔ ∃ a, plan.nodes[i]? = some a ∧ a.decl = decl
  node : ∀ (i : NodeId) a, plan.nodes[i]? = some a → ∃ d, g.declarations[a.decl]? = some d ∧
    nodeKind g domain d.operation = .ok a.kind ∧ ∀ p ∈ d.parents, ∃ (j : NodeId) (b : NetworkNode V S),
      plan.nodes[j]? = some b ∧ b.decl = p ∧ b.rank < a.rank

theorem Planned.empty : Planned g domain [] (⟨#[], .empty⟩ : Plan V S) :=
  ⟨rfl, fun decl i => by simp, fun i a ha => by simp at ha⟩

theorem rankOf_spec {plan : Plan V S} {decl : DeclId} {parents : List DeclId} {rank : Nat}
    (h : rankOf plan decl parents = .ok rank) : ∀ p ∈ parents, ∃ (i : NodeId) (a : NetworkNode V S),
      plan.nodeOf.get? p = some i ∧ plan.nodes[i]? = some a ∧ a.rank < rank := by
  induction parents generalizing rank with
  | nil => simp
  | cons q qs ih =>
      obtain ⟨r, hr, h⟩ := Outcome.bind_eq_ok.mp h
      obtain ⟨rest, hrest, h⟩ := Outcome.bind_eq_ok.mp h
      obtain rfl : max (r + 1) rest = rank := Except.ok.inj h
      intro p hp
      rcases List.mem_cons.mp hp with rfl | hp
      · unfold parentRank at hr
        split at hr
        · rename_i a ha
          obtain ⟨i, hi, hnode⟩ := Option.bind_eq_some_iff.mp ha
          obtain rfl := Except.ok.inj hr
          exact ⟨i, a, hi, hnode, Nat.lt_of_lt_of_le (Nat.lt_succ_self _) (Nat.le_max_left _ _)⟩
        · cases hr
      · obtain ⟨i, a, hi, hnode, hlt⟩ := ih hrest p hp
        exact ⟨i, a, hi, hnode, Nat.lt_of_lt_of_le hlt (Nat.le_max_right _ _)⟩

/-- Nodes that keep their declarations and ranks stay below what they were below. -/
theorem below_kept {nodes nodes' : Array (NetworkNode V S)} {parents : List DeclId} {rank : Nat}
    (hkept : ∀ (j : NodeId) b, nodes[j]? = some b →
      ∃ b', nodes'[j]? = some b' ∧ b'.decl = b.decl ∧ b'.rank = b.rank)
    (h : ∀ p ∈ parents, ∃ (j : NodeId) (b : NetworkNode V S),
      nodes[j]? = some b ∧ b.decl = p ∧ b.rank < rank) :
    ∀ p ∈ parents, ∃ (j : NodeId) (b : NetworkNode V S),
      nodes'[j]? = some b ∧ b.decl = p ∧ b.rank < rank := by
  intro p hp
  obtain ⟨j, b, hb, hdecl, hlt⟩ := h p hp
  obtain ⟨b', hb', hdecl', hrank'⟩ := hkept j b hb
  exact ⟨j, b', hb', hdecl'.trans hdecl, hrank' ▸ hlt⟩

section Plan

variable {plan plan' : Plan V S} {ds : List DeclId} {decl : DeclId}

theorem Planned.addNode (h : Planned g domain ds plan) (hnew : decl ∉ ds)
    (hlt : decl < g.declarations.size) (hok : addNode g domain plan decl = .ok plan') :
    Planned g domain (ds ++ [decl]) plan' := by
  unfold Network.addNode at hok
  split at hok
  · rename_i hnone
    exact absurd hlt (Nat.not_lt.mpr (Array.getElem?_eq_none_iff.mp hnone))
  · rename_i d hd
    obtain ⟨rank, hrank, hok⟩ := Outcome.bind_eq_ok.mp hok
    obtain ⟨kind, hkind, hok⟩ := Outcome.bind_eq_ok.mp hok
    obtain rfl := Except.ok.inj hok
    have hget : ∀ i : NodeId, (plan.nodes.push ⟨decl, rank, [], kind⟩)[i]? =
        if i = plan.nodes.size then some ⟨decl, rank, [], kind⟩ else plan.nodes[i]? :=
      fun i => Array.getElem?_push
    -- The new node stands last, so the others keep their places.
    have hkept : ∀ (i : NodeId) a, plan.nodes[i]? = some a →
        ∃ b, (plan.nodes.push ⟨decl, rank, [], kind⟩)[i]? = some b ∧ b.decl = a.decl ∧
          b.rank = a.rank := by
      intro i a ha
      rw [hget, if_neg (Nat.ne_of_lt (Array.getElem?_eq_some_iff.mp ha).1), ha]
      exact ⟨a, rfl, rfl, rfl⟩
    refine ⟨by simp [h.decls], fun e i => ?_, fun i a ha => ?_⟩
    · rw [Table.get?_insert, hget]
      by_cases he : decl = e
      · subst he
        rw [if_pos BEq.rfl]
        constructor
        · intro hi
          rw [if_pos (Option.some.inj hi).symm]
          exact ⟨_, rfl, rfl⟩
        · rintro ⟨a, ha, hdecl⟩
          split at ha
          · rename_i hi
            rw [hi]
          · refine absurd ?_ hnew
            rw [← h.decls, ← hdecl]
            exact List.mem_map_of_mem (Array.mem_toList_iff.mpr (Array.mem_of_getElem? ha))
      · rw [if_neg (by simpa using he), h.nodeOf]
        constructor
        · rintro ⟨a, ha, hdecl⟩
          rw [if_neg (Nat.ne_of_lt (Array.getElem?_eq_some_iff.mp ha).1)]
          exact ⟨a, ha, hdecl⟩
        · rintro ⟨a, ha, hdecl⟩
          split at ha
          · obtain rfl := Option.some.inj ha
            exact absurd hdecl he
          · exact ⟨a, ha, hdecl⟩
    · rw [hget] at ha
      split at ha
      · obtain rfl := Option.some.inj ha
        refine ⟨d, hd, hkind, below_kept hkept fun p hp => ?_⟩
        obtain ⟨j, b, hj, hb, hlt⟩ := rankOf_spec hrank p hp
        obtain ⟨b', hb', hdecl⟩ := (h.nodeOf p j).mp hj
        obtain rfl := Option.some.inj (hb.symm.trans hb')
        exact ⟨j, b, hb, hdecl, hlt⟩
      · obtain ⟨e, he, hk, hall⟩ := h.node i a ha
        exact ⟨e, he, hk, below_kept hkept hall⟩

theorem Planned.addAll {es : List DeclId} (h : Planned g domain ds plan)
    (hnodup : (ds ++ es).Nodup) (hlt : ∀ e ∈ es, e < g.declarations.size)
    (hok : es.foldlM (Network.addNode g domain) plan = .ok plan') :
    Planned g domain (ds ++ es) plan' := by
  induction es generalizing ds plan with
  | nil =>
      obtain rfl := Except.ok.inj hok
      rwa [List.append_nil]
  | cons e es ih =>
      rw [List.foldlM_cons] at hok
      obtain ⟨plan₁, hadd, hok⟩ := Outcome.bind_eq_ok.mp hok
      have hnew : e ∉ ds := fun he =>
        (List.nodup_append.mp hnodup).2.2 e he e List.mem_cons_self rfl
      have h₁ := h.addNode hnew (hlt e List.mem_cons_self) hadd
      rw [List.append_cons] at hnodup ⊢
      exact ih h₁ hnodup (fun e' he' => hlt e' (List.mem_cons_of_mem e he')) hok

theorem withChildren_decl (nodeOf : Table DeclId NodeId) (node : NetworkNode V S) :
    (withChildren g nodeOf node).decl = node.decl := by
  unfold withChildren
  split <;> rfl

theorem withChildren_rank (nodeOf : Table DeclId NodeId) (node : NetworkNode V S) :
    (withChildren g nodeOf node).rank = node.rank := by
  unfold withChildren
  split <;> rfl

theorem withChildren_kind (nodeOf : Table DeclId NodeId) (node : NetworkNode V S) :
    (withChildren g nodeOf node).kind = node.kind := by
  unfold withChildren
  split <;> rfl

theorem withChildren_children {nodeOf : Table DeclId NodeId} {node : NetworkNode V S}
    {d : Declaration V} (hd : g.declarations[node.decl]? = some d) :
    (withChildren g nodeOf node).children = d.children.filterMap nodeOf.get? := by
  unfold withChildren
  rw [hd]

/-- Declarations have nodes of their own. -/
theorem Planned.nodup_nodes {decls : List DeclId} (h : Planned g domain ds plan)
    (hnodup : decls.Nodup) : (decls.filterMap plan.nodeOf.get?).Nodup := by
  refine hnodup.filterMap fun c c' j hj hj' => ?_
  obtain ⟨a, ha, rfl⟩ := (h.nodeOf c j).mp hj
  obtain ⟨a', ha', rfl⟩ := (h.nodeOf c' j).mp hj'
  rw [Option.some.inj (ha.symm.trans ha')]

theorem Planned.mem_nodes {decls : List DeclId} (h : Planned g domain ds plan) {j : NodeId} :
    j ∈ decls.filterMap plan.nodeOf.get? ↔ ∃ b, plan.nodes[j]? = some b ∧ b.decl ∈ decls := by
  rw [List.mem_filterMap]
  constructor
  · rintro ⟨c, hc, hj⟩
    obtain ⟨b, hb, rfl⟩ := (h.nodeOf c j).mp hj
    exact ⟨b, hb, hc⟩
  · rintro ⟨b, hb, hc⟩
    exact ⟨b.decl, hc, (h.nodeOf _ _).mpr ⟨b, hb, rfl⟩⟩

end Plan

section Order

variable (nodes : Array (NetworkNode V S))

theorem rank_trans (a b c : NodeId) (hab : decide (rankAt nodes a ≤ rankAt nodes b))
    (hbc : decide (rankAt nodes b ≤ rankAt nodes c)) : decide (rankAt nodes a ≤ rankAt nodes c) :=
  decide_eq_true (Nat.le_trans (of_decide_eq_true hab) (of_decide_eq_true hbc))

theorem rank_total (a b : NodeId) :
    decide (rankAt nodes a ≤ rankAt nodes b) || decide (rankAt nodes b ≤ rankAt nodes a) := by
  simpa using Nat.le_total _ _

/-- The sort is stable, so the nodes of one rank stay as they were. -/
theorem filter_settleOrder (r : Nat) : (settleOrder nodes).filter (rankAt nodes · = r) =
    (List.range nodes.size).filter (rankAt nodes · = r) := by
  have hequal : ((List.range nodes.size).filter (rankAt nodes · = r)).Pairwise fun a b =>
      decide (rankAt nodes a ≤ rankAt nodes b) :=
    List.pairwise_of_forall_mem_list fun a ha b hb => by
      simp only [List.mem_filter, decide_eq_true_eq] at ha hb
      exact decide_eq_true (Nat.le_of_eq (ha.2.trans hb.2.symm))
  have hsub := (List.sublist_mergeSort (rank_trans nodes) (rank_total nodes) hequal
    List.filter_sublist).filter (rankAt nodes · = r)
  simp only [List.filter_filter, Bool.and_self] at hsub
  exact (hsub.eq_of_length ((List.mergeSort_perm _ _).filter _).length_eq.symm).symm

/-- Nodes come in the order of their ranks, and those of one rank in the order of their ids. -/
theorem settleOrder_pairwise : (settleOrder nodes).Pairwise fun a b =>
    rankAt nodes a < rankAt nodes b ∨ rankAt nodes a = rankAt nodes b ∧ a < b := by
  have hsorted := List.pairwise_mergeSort (rank_trans nodes) (rank_total nodes)
    (List.range nodes.size)
  refine List.pairwise_iff_forall_sublist.mpr fun {a b} hab => ?_
  have hle := of_decide_eq_true (List.pairwise_iff_forall_sublist.mp hsorted hab)
  refine (Nat.lt_or_eq_of_le hle).imp_right fun heq => ⟨heq, ?_⟩
  have hsub := hab.filter (rankAt nodes · = rankAt nodes b)
  rw [filter_settleOrder, List.filter_cons_of_pos (by simpa using heq),
    List.filter_cons_of_pos (by simp)] at hsub
  exact List.pairwise_iff_forall_sublist.mp List.pairwise_lt_range
    (hsub.trans List.filter_sublist)

end Order

/-- What is known of the network of a graph. -/
structure Compiled [Score S] (g : DeclarationGraph V S) (domain : DomainModel V)
    (net : Network V S) : Prop where
  graph : net.graph = g
  decls : net.nodes.toList.map (·.decl) = (List.range g.size).filter g.isActive
  node : ∀ (i : NodeId) a, net.nodes[i]? = some a → ∃ d, g.declarations[a.decl]? = some d ∧
    nodeKind g domain d.operation = .ok a.kind ∧ ∀ p ∈ d.parents, ∃ (j : NodeId) (b : NetworkNode V S),
      net.nodes[j]? = some b ∧ b.decl = p ∧ b.rank < a.rank
  children : ∀ (i : NodeId) a d, net.nodes[i]? = some a → g.declarations[a.decl]? = some d →
    (d.children.Nodup → a.children.Nodup) ∧ ∀ j, j ∈ a.children ↔
      ∃ b, net.nodes[j]? = some b ∧ b.decl ∈ d.children
  routes : net.routes = allRoutes net.nodes
  order : net.order = settleOrder net.nodes
  queues : net.queues = Array.replicate net.nodes.size #[]
  arena : net.arena = .empty
  ledger : net.ledger = .new (g.constraints.map (·.ref))

section

variable [Score S] {net : Network V S} {i j : NodeId} {a b : NetworkNode V S}

theorem compile_spec (h : compile g domain = .ok net) : Compiled g domain net := by
  obtain ⟨plan, hplan, h⟩ := Outcome.bind_eq_ok.mp h
  obtain rfl := Except.ok.inj h
  have hrange : ∀ e ∈ (List.range g.size).filter g.isActive, e < g.declarations.size := fun e he =>
    List.mem_range.mp (List.mem_filter.mp he).1
  have hempty : Planned g domain [] ⟨#[], .empty⟩ := .empty
  have hp := hempty.addAll (List.nodup_range.filter _) hrange hplan
  rw [List.nil_append] at hp
  have hget : ∀ i : NodeId, (plan.nodes.map (withChildren g plan.nodeOf))[i]? =
      plan.nodes[i]?.map (withChildren g plan.nodeOf) := fun i => Array.getElem?_map
  refine ⟨rfl, ?_, fun i a ha => ?_, fun i a d ha hd => ?_, rfl, rfl, rfl, rfl, rfl⟩
  · rw [← hp.decls, Array.toList_map, List.map_map]
    exact List.map_congr_left fun x _ => withChildren_decl plan.nodeOf x
  · rw [hget] at ha
    obtain ⟨x, hx, rfl⟩ := Option.map_eq_some_iff.mp ha
    obtain ⟨d, hd, hk, hparents⟩ := hp.node i x hx
    rw [withChildren_decl, withChildren_rank, withChildren_kind]
    refine ⟨d, hd, hk, below_kept (fun j b hb => ?_) hparents⟩
    rw [hget, hb]
    exact ⟨_, rfl, withChildren_decl _ b, withChildren_rank _ b⟩
  · rw [hget] at ha
    obtain ⟨x, hx, rfl⟩ := Option.map_eq_some_iff.mp ha
    rw [withChildren_decl] at hd
    rw [withChildren_children hd]
    refine ⟨hp.nodup_nodes, fun j => ?_⟩
    rw [hp.mem_nodes, hget]
    constructor
    · rintro ⟨b, hb, hc⟩
      rw [hb]
      exact ⟨_, rfl, (withChildren_decl _ b).symm ▸ hc⟩
    · rintro ⟨b, hb, hc⟩
      obtain ⟨y, hy, rfl⟩ := Option.map_eq_some_iff.mp hb
      rw [withChildren_decl] at hc
      exact ⟨y, hy, hc⟩

/-- The order of the nodes follows from their ranks. -/
theorem compile_ordered {ranks : List Nat} {order : List NodeId} (h : compile g domain = .ok net)
    (hranks : net.nodes.toList.map (·.rank) = ranks) (hperm : order.Perm (List.range ranks.length))
    (hsorted : order.Pairwise fun a b => ranks.getD a 0 < ranks.getD b 0 ∨
      ranks.getD a 0 = ranks.getD b 0 ∧ a < b) :
    compile g domain = .ok { net with order := order } := by
  have hrank : ∀ id, rankAt net.nodes id = ranks.getD id 0 := by
    intro id
    rw [← hranks, List.getD_eq_getElem?_getD, List.getElem?_map, Array.getElem?_toList]
    unfold rankAt
    cases net.nodes[id]? <;> rfl
  have hsize : net.nodes.size = ranks.length := by
    rw [← hranks, List.length_map, Array.length_toList]
  have horder : net.order = order := by
    rw [(compile_spec h).order]
    refine List.Perm.eq_of_pairwise (fun a b _ _ hab hba => ?_) 
      (settleOrder_pairwise net.nodes) ?_ ?_
    · rcases hab with hab | ⟨heq, hab⟩ <;> rcases hba with hba | ⟨heq', hba⟩
      · exact absurd hba (Nat.lt_asymm hab)
      · exact absurd heq'.symm (Nat.ne_of_lt hab)
      · exact absurd heq.symm (Nat.ne_of_lt hba)
      · exact absurd hba (Nat.lt_asymm hab)
    · simpa only [hrank] using hsorted
    · rw [← hsize] at hperm
      exact (List.mergeSort_perm _ _).trans hperm.symm
  rw [h, ← horder]

namespace Compiled

/-- Nodes have the order of their declarations. -/
theorem decl_lt (h : Compiled g domain net) (ha : net.nodes[i]? = some a)
    (hb : net.nodes[j]? = some b) (hij : i < j) : a.decl < b.decl := by
  have hsorted : (net.nodes.toList.map (·.decl)).Pairwise (· < ·) := by
    rw [h.decls]
    exact List.pairwise_lt_range.filter _
  have hget : ∀ {k : NodeId} {x : NetworkNode V S}, net.nodes[k]? = some x →
      (net.nodes.toList.map (·.decl))[k]? = some x.decl := by
    intro k x hx
    rw [List.getElem?_map, Array.getElem?_toList, hx]
    rfl
  obtain ⟨hi, hai⟩ := List.getElem?_eq_some_iff.mp (hget ha)
  obtain ⟨hj, hbj⟩ := List.getElem?_eq_some_iff.mp (hget hb)
  rw [← hai, ← hbj]
  exact List.pairwise_iff_getElem.mp hsorted i j hi hj hij

theorem eq_of_decl (h : Compiled g domain net) (ha : net.nodes[i]? = some a)
    (hb : net.nodes[j]? = some b) (hdecl : a.decl = b.decl) : i = j := by
  rcases Nat.lt_trichotomy i j with hlt | heq | hgt
  · exact absurd (hdecl ▸ h.decl_lt ha hb hlt) (Nat.lt_irrefl _)
  · exact heq
  · exact absurd (hdecl ▸ h.decl_lt hb ha hgt) (Nat.lt_irrefl _)

/-- There is a node for every active declaration. -/
theorem exists_node (h : Compiled g domain net) {decl : DeclId} (hlt : decl < g.size)
    (hactive : g.isActive decl) : ∃ (i : NodeId) (a : NetworkNode V S),
      net.nodes[i]? = some a ∧ a.decl = decl := by
  have hmem : decl ∈ net.nodes.toList.map (·.decl) := by
    rw [h.decls]
    exact List.mem_filter.mpr ⟨List.mem_range.mpr hlt, hactive⟩
  obtain ⟨a, ha, rfl⟩ := List.mem_map.mp hmem
  obtain ⟨i, hi⟩ := List.mem_iff_getElem?.mp ha
  exact ⟨i, a, by rw [← Array.getElem?_toList, hi], rfl⟩

end Compiled

end

section Succeeds

variable {plan : Plan V S} {ds : List DeclId} {decl : DeclId}

theorem Planned.rankOf_ok (h : Planned g domain ds plan) {parents : List DeclId}
    (hparents : ∀ p ∈ parents, p ∈ ds) : ∃ rank, rankOf plan decl parents = .ok rank := by
  induction parents with
  | nil => exact ⟨0, rfl⟩
  | cons p ps ih =>
      obtain ⟨rest, hrest⟩ := ih fun q hq => hparents q (List.mem_cons_of_mem p hq)
      have hp : p ∈ plan.nodes.toList.map (·.decl) := h.decls ▸ hparents p List.mem_cons_self
      obtain ⟨a, ha, rfl⟩ := List.mem_map.mp hp
      obtain ⟨i, hi⟩ := Array.getElem?_of_mem (Array.mem_toList_iff.mp ha)
      have hparent : parentRank plan decl a.decl = .ok a.rank := by
        unfold parentRank
        rw [(h.nodeOf a.decl i).mpr ⟨a, hi, rfl⟩, Option.bind_some, hi]
      refine ⟨max (a.rank + 1) rest, ?_⟩
      rw [rankOf, hparent, hrest]
      rfl

/-- What a graph needs so that it can be compiled. -/
structure Compilable (g : DeclarationGraph V S) (domain : DomainModel V) : Prop where
  parents : ∀ (id : DeclId) d, g.declarations[id]? = some d → g.isActive id →
    ∀ p ∈ d.parents, p < id ∧ g.isActive p
  kind : ∀ (id : DeclId) d, g.declarations[id]? = some d → g.isActive id →
    ∃ k, nodeKind g domain d.operation = .ok k

theorem Planned.addAll_ok (hc : Compilable g domain) {es : List DeclId}
    (h : Planned g domain ds plan) (hall : ds ++ es = (List.range g.size).filter g.isActive) :
    ∃ plan', es.foldlM (Network.addNode g domain) plan = .ok plan' := by
  induction es generalizing ds plan with
  | nil => exact ⟨plan, rfl⟩
  | cons e es ih =>
      have hmem : e ∈ (List.range g.size).filter g.isActive := hall ▸ List.mem_append_right ds
        List.mem_cons_self
      obtain ⟨hlt, hactive⟩ := List.mem_filter.mp hmem
      have hlt : e < g.declarations.size := List.mem_range.mp hlt
      have hsorted : (ds ++ e :: es).Pairwise (· < ·) := hall ▸ List.pairwise_lt_range.filter _
      obtain ⟨-, htail, hbefore⟩ := List.pairwise_append.mp hsorted
      have hafter := (List.pairwise_cons.mp htail).1
      obtain ⟨d, hd⟩ : ∃ d, g.declarations[e]? = some d := ⟨_, Array.getElem?_eq_getElem hlt⟩
      have hparents : ∀ p ∈ d.parents, p ∈ ds := fun p hp => by
        obtain ⟨hpe, hpactive⟩ := hc.parents e d hd hactive p hp
        have hpmem : p ∈ ds ++ e :: es := by
          rw [hall]
          exact List.mem_filter.mpr ⟨List.mem_range.mpr (Nat.lt_trans hpe hlt), hpactive⟩
        rcases List.mem_append.mp hpmem with hp | hp
        · exact hp
        · rcases List.mem_cons.mp hp with rfl | hp
          · exact absurd hpe (Nat.lt_irrefl _)
          · exact absurd (hafter p hp) (Nat.lt_asymm hpe)
      obtain ⟨rank, hrank⟩ : ∃ rank, rankOf plan e d.parents = .ok rank := h.rankOf_ok hparents
      obtain ⟨kind, hkind⟩ := hc.kind e d hd hactive
      have hadd : Network.addNode g domain plan e =
          .ok ⟨plan.nodes.push ⟨e, rank, [], kind⟩, plan.nodeOf.insert e plan.nodes.size⟩ := by
        unfold Network.addNode
        rw [hd]
        simp only [hrank, hkind]
        rfl
      have hnew : e ∉ ds := fun he => absurd (hbefore e he e List.mem_cons_self) (Nat.lt_irrefl e)
      obtain ⟨plan', hplan'⟩ := ih (h.addNode hnew hlt hadd)
        (by rw [List.append_assoc, List.singleton_append, hall])
      refine ⟨plan', ?_⟩
      rw [List.foldlM_cons, hadd]
      exact hplan'

/-- Compiling fails on no graph whose sources and constraints are known. -/
theorem compile_ok [Score S] (hc : Compilable g domain) : ∃ net, compile g domain = .ok net := by
  obtain ⟨plan, hplan⟩ := Planned.empty.addAll_ok hc (List.nil_append _)
  unfold compile
  rw [hplan]
  exact ⟨_, rfl⟩

end Succeeds

end ConstraintScoring.Network
