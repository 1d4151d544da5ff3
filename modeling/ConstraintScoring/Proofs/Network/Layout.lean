import ConstraintScoring.Proofs.Network.Reach
import ConstraintScoring.Proofs.Network.Routes

/-!
# The layout of a compiled network

The network of a well-formed graph is wired as its nodes need it: readers hear of every tuple once,
on the side that its bridges say, and later than the tuple's own node is settled.
-/

namespace ConstraintScoring

variable {V S : Type}

namespace Network

variable [Score S] {g : DeclarationGraph V S} {domain : DomainModel V} {net : Network V S}

/-- The node of an operation before it has heard of anything. -/
def Blank (g : DeclarationGraph V S) (domain : DomainModel V) (k : NodeKind V S) :
    Operation V → Prop
  | .source type includeUnassigned => ∃ c, domain.class? type = some c ∧ k = .source (.new type
      (if includeUnassigned || !c.canBeUnassigned then none else some c))
  | .foreBridge side => k = .foreBridge side
  | .aftBridge => k = .aftBridge
  | .filter accepts => k = .filter (.new accepts)
  | .join indexer => k = .join (.new indexer)
  | .exists shouldExist indexer => k = .exists (.new shouldExist indexer)
  | .group keys collectors => k = .group (.new keys collectors)
  | .map columns => k = .map (.new columns)
  | .flattenLast expand => k = .flatten (.new expand)
  | .concat => k = .concat .new
  | .score constraint => ∃ c, g.constraints[constraint]? = some c ∧
      k = .score ⟨constraint, c.impact, c.weight, c.weigher, .empty⟩

omit [Score S] in
theorem nodeKind_spec {op : Operation V} {k : NodeKind V S} (h : nodeKind g domain op = .ok k) :
    Blank g domain k op := by
  cases op with
  | source type includeUnassigned =>
      obtain ⟨n, hn, hk⟩ := Outcome.bind_eq_ok.mp h
      obtain rfl := Except.ok.inj hk
      unfold sourceNode at hn
      split at hn
      · cases hn
      · rename_i c hc
        obtain rfl := Except.ok.inj hn
        exact ⟨c, hc, rfl⟩
  | score constraint =>
      obtain ⟨n, hn, hk⟩ := Outcome.bind_eq_ok.mp h
      obtain rfl := Except.ok.inj hk
      unfold scoreNode at hn
      split at hn
      · cases hn
      · rename_i c hc
        obtain rfl := Except.ok.inj hn
        exact ⟨c, hc, rfl⟩
  | _ => exact (Except.ok.inj h).symm

omit [Score S] in
theorem Blank.blank {op : Operation V} {k : NodeKind V S} (h : Blank g domain k op) :
    k.blank = k := by
  cases op with
  | source _ _ | score _ =>
      obtain ⟨c, -, rfl⟩ := h
      rfl
  | _ =>
      obtain rfl : k = _ := h
      rfl

/-- The width of the rows of a node. -/
def widthAt (g : DeclarationGraph V S) (net : Network V S) (id : NodeId) : Nat :=
  net.nodes[id]?.elim 0 fun a => (declaredIn g.declarations).width a.decl

namespace Compiled

variable {p q c e : NodeId} {a b : NetworkNode V S} {d : Candidate V}

theorem candidate (h : Compiled g domain net) (ha : net.nodes[p]? = some a) : ∃ d,
    declaredIn g.declarations a.decl = some d ∧ Blank g domain (net.kindAt p) d.operation ∧
      ∀ q ∈ d.key.parents, ∃ (j : NodeId) (b : NetworkNode V S),
        net.nodes[j]? = some b ∧ b.decl = q ∧ b.rank < a.rank := by
  obtain ⟨d, hd, hkind, hparents⟩ := h.node p a ha
  rw [kindAt_of_node ha]
  exact ⟨d.candidate, declaredIn_eq_some.mpr ⟨d, hd, rfl⟩, nodeKind_spec hkind, hparents⟩

/-- A node is below the nodes of the parents of its declaration. -/
theorem below_iff (h : Compiled g domain net) (hf : Formed g.declarations)
    (ha : net.nodes[p]? = some a) (hb : net.nodes[c]? = some b)
    (hd : declaredIn g.declarations b.decl = some d) : net.Below p c ↔ a.decl ∈ d.key.parents := by
  obtain ⟨e, he, -, -⟩ := h.node p a ha
  obtain ⟨-, hchildren⟩ := h.children p a e ha he
  have hmem : net.Below p c ↔ c ∈ a.children := by
    unfold Below
    simp [ha]
  rw [hmem, hchildren]
  constructor
  · rintro ⟨b', hb', hchild⟩
    obtain rfl := Option.some.inj (hb.symm.trans hb')
    obtain ⟨d', hd', hp⟩ := (hf.mem_children a.decl e he b.decl).mp hchild
    rwa [Option.some.inj (hd.symm.trans hd')]
  · exact fun hp => ⟨b, hb, (hf.mem_children a.decl e he b.decl).mpr ⟨d, hd, hp⟩⟩

/-- What is below a node has a declaration with the node's declaration as a parent. -/
theorem of_below (h : Compiled g domain net) (hf : Formed g.declarations) (hpc : net.Below p c) :
    ∃ a b d, net.nodes[p]? = some a ∧ net.nodes[c]? = some b ∧
      declaredIn g.declarations b.decl = some d ∧ a.decl ∈ d.key.parents := by
  obtain ⟨a, ha, hc⟩ := id hpc
  obtain ⟨e, he, -, -⟩ := h.node p a ha
  obtain ⟨b, hb, -⟩ := ((h.children p a e ha he).2 c).mp hc
  obtain ⟨d, hd, -⟩ := h.candidate hb
  exact ⟨a, b, d, ha, hb, hd, (h.below_iff hf ha hb hd).mp hpc⟩

theorem outward_fore (h : Compiled g domain net) (ha : net.nodes[p]? = some a) {side : Side}
    (hfore : (declaredIn g.declarations).Fore a.decl side) : net.outward p = side := by
  obtain ⟨d, hd, hblank, -⟩ := h.candidate ha
  obtain ⟨d', hd', hop⟩ := hfore
  obtain rfl := Option.some.inj (hd.symm.trans hd')
  rw [hop] at hblank
  rw [outward, show net.kindAt p = _ from hblank]
  rfl

theorem outward_plain (h : Compiled g domain net) (ha : net.nodes[p]? = some a)
    (hplain : (declaredIn g.declarations).Plain a.decl) : net.outward p = .left := by
  obtain ⟨d, hd, hblank, -⟩ := h.candidate ha
  obtain ⟨d', hd', hop⟩ := hplain
  obtain rfl := Option.some.inj (hd.symm.trans hd')
  cases hdop : d.operation with
  | foreBridge side =>
      rw [hdop] at hop
      cases hop
  | source _ _ | score _ =>
      rw [hdop] at hblank
      obtain ⟨_, -, hk⟩ := hblank
      rw [outward, hk]
      rfl
  | _ =>
      rw [hdop] at hblank
      rw [outward, show net.kindAt p = _ from hblank]
      rfl

/-- How a node hears of the tuples of the nodes above it. -/
theorem feeders (h : Compiled g domain net) (hf : Formed g.declarations)
    (hb : net.nodes[c]? = some b) (hd : declaredIn g.declarations b.decl = some d) :
    (∃ decl, d.key.parents = [decl] ∧ (declaredIn g.declarations).Plain decl ∧
      ∀ p a, net.nodes[p]? = some a → net.Below p c → a.decl = decl ∧ net.outward p = .left) ∨
    (∃ l r, d.key.parents = [l, r] ∧ (declaredIn g.declarations).Fore l .left ∧
      (declaredIn g.declarations).Fore r .right ∧ ∀ p a, net.nodes[p]? = some a → net.Below p c →
        a.decl = l ∧ net.outward p = .left ∨ a.decl = r ∧ net.outward p = .right) ∨
    d.key.parents = [] ∧ (∃ type u, d.operation = .source type u) ∧ ∀ p, ¬net.Below p c := by
  have hparent : ∀ p a, net.nodes[p]? = some a → net.Below p c → a.decl ∈ d.key.parents :=
    fun p a ha hpc => (h.below_iff hf ha hb hd).mp hpc
  rcases (hf.shape b.decl d hd).parents with ⟨hnil, hsource⟩ | ⟨decl, hp, hplain⟩ | ⟨l, r, hp, hl, hr⟩
  · refine Or.inr (Or.inr ⟨hnil, hsource, fun p hpc => ?_⟩)
    obtain ⟨a, ha, -⟩ := id hpc
    have hmem := hparent p a ha hpc
    rw [hnil] at hmem
    cases hmem
  · refine Or.inl ⟨decl, hp, hplain, fun p a ha hpc => ?_⟩
    have hmem := hparent p a ha hpc
    rw [hp, List.mem_singleton] at hmem
    exact ⟨hmem, h.outward_plain ha (hmem ▸ hplain)⟩
  · refine Or.inr (Or.inl ⟨l, r, hp, hl, hr, fun p a ha hpc => ?_⟩)
    have hmem := hparent p a ha hpc
    rw [hp, List.mem_cons, List.mem_singleton] at hmem
    rcases hmem with hmem | hmem
    · exact Or.inl ⟨hmem, h.outward_fore ha (hmem ▸ hl)⟩
    · exact Or.inr ⟨hmem, h.outward_fore ha (hmem ▸ hr)⟩

theorem isBridge_iff (h : Compiled g domain net) (hb : net.nodes[c]? = some b)
    (hd : declaredIn g.declarations b.decl = some d) :
    net.IsBridge c ↔ (∃ side, d.operation = .foreBridge side) ∨ d.operation = .aftBridge := by
  obtain ⟨d', hd', hblank, -⟩ := h.candidate hb
  obtain rfl := Option.some.inj (hd.symm.trans hd')
  cases hop : d.operation with
  | source _ _ | score _ =>
      rw [hop] at hblank
      obtain ⟨_, -, hk⟩ := hblank
      simp [IsBridge, hk, NodeKind.isBridge]
  | _ =>
      rw [hop] at hblank
      simp [IsBridge, show net.kindAt c = _ from hblank, NodeKind.isBridge]

theorem laid (h : Compiled g domain net) (hf : Formed g.declarations) : net.Laid := by
  refine ⟨h.routes, fun p c hpc => ?_, fun p c hpc => ?_, fun p a ha => ?_, fun p p' c hc hpc hpc' => ?_,
    fun p p' c hpc hpc' hside => ?_⟩
  · obtain ⟨-, b, -, -, hb, -⟩ := h.of_below hf hpc
    exact (Array.getElem?_eq_some_iff.mp hb).1
  · obtain ⟨a, b, d, ha, hb, hd, hp⟩ := h.of_below hf hpc
    have hlt := hf.parents_lt b.decl d hd a.decl hp
    by_contra hge
    rcases Nat.lt_or_eq_of_le (Nat.le_of_not_lt hge) with hlt' | rfl
    · exact absurd (Nat.lt_trans hlt (h.decl_lt hb ha hlt')) (Nat.lt_irrefl _)
    · obtain rfl := Option.some.inj (ha.symm.trans hb)
      exact absurd hlt (Nat.lt_irrefl _)
  · obtain ⟨d, hd, -, -⟩ := h.node p a ha
    exact (h.children p a d ha hd).1 (hf.children_nodup a.decl d hd)
  · obtain ⟨a, b, d, ha, hb, hd, -⟩ := h.of_below hf hpc
    obtain ⟨a', -, -, ha', -⟩ := h.of_below hf hpc'
    rcases h.feeders hf hb hd with ⟨_, -, -, hall⟩ | ⟨l, r, hp, hl, hr, -⟩ | ⟨-, -, hnone⟩
    · exact h.eq_of_decl ha ha' ((hall p a ha hpc).1.trans (hall p' a' ha' hpc').1.symm)
    · have hshape := hf.shape b.decl d hd
      rcases (h.isBridge_iff hb hd).mp hc with ⟨side, hop⟩ | hop <;>
        rw [hop] at hshape <;> obtain ⟨q, hq, -⟩ := hshape <;> rw [hp] at hq <;> cases hq
    · exact absurd hpc (hnone p)
  · obtain ⟨a, b, d, ha, hb, hd, -⟩ := h.of_below hf hpc
    obtain ⟨a', -, -, ha', -⟩ := h.of_below hf hpc'
    rcases h.feeders hf hb hd with ⟨_, -, -, hall⟩ | ⟨l, r, -, -, -, hall⟩ | ⟨-, -, hnone⟩
    · exact h.eq_of_decl ha ha' ((hall p a ha hpc).1.trans (hall p' a' ha' hpc').1.symm)
    · have hone := hall p a ha hpc
      have htwo := hall p' a' ha' hpc'
      rw [← hside] at htwo
      rcases hone with ⟨h₁, hs₁⟩ | ⟨h₁, hs₁⟩ <;> rcases htwo with ⟨h₂, hs₂⟩ | ⟨h₂, hs₂⟩
      · exact h.eq_of_decl ha ha' (h₁.trans h₂.symm)
      · cases hs₁.symm.trans hs₂
      · cases hs₁.symm.trans hs₂
      · exact h.eq_of_decl ha ha' (h₁.trans h₂.symm)
    · exact absurd hpc (hnone p)

theorem rank_lt (h : Compiled g domain net) (hf : Formed g.declarations) (hpc : net.Below p c) :
    rankAt net.nodes p < rankAt net.nodes c := by
  obtain ⟨a, b, d, ha, hb, hd, hp⟩ := h.of_below hf hpc
  obtain ⟨d', hd', -, hparents⟩ := h.candidate hb
  obtain rfl := Option.some.inj (hd.symm.trans hd')
  obtain ⟨j, b', hb', hdecl, hlt⟩ := hparents a.decl hp
  obtain rfl := h.eq_of_decl hb' ha hdecl
  obtain rfl := Option.some.inj (hb'.symm.trans ha)
  unfold rankAt
  rw [ha, hb]
  exact hlt

theorem rank_le (h : Compiled g domain net) (hf : Formed g.declarations) (hpe : net.Behind p e) :
    rankAt net.nodes p ≤ rankAt net.nodes e := by
  induction hpe with
  | refl => exact Nat.le_refl _
  | step _ hb _ ih => exact Nat.le_trans ih (Nat.le_of_lt (h.rank_lt hf hb))

/-- Bridges have rows of the width of what is behind them. -/
theorem width_eq (h : Compiled g domain net) (hf : Formed g.declarations) (hpe : net.Behind p e) :
    widthAt g net p = widthAt g net e := by
  induction hpe with
  | refl => rfl
  | step _ hqe hbridge ih =>
      obtain ⟨a, b, d, ha, hb, hd, hp⟩ := h.of_below hf hqe
      have hshape := hf.shape b.decl d hd
      rw [ih]
      unfold widthAt
      rw [ha, hb]
      change _ = (declaredIn g.declarations).width b.decl
      have hwidth : (declaredIn g.declarations).width b.decl = d.width := by
        unfold Declared.width
        rw [hd]
        rfl
      rw [hwidth]
      rcases (h.isBridge_iff hb hd).mp hbridge with ⟨side, hop⟩ | hop <;>
        rw [hop] at hshape <;> obtain ⟨q, hq, -, hw⟩ := hshape <;>
        rw [hq, List.mem_singleton] at hp <;> rw [hw, ← hp] <;> rfl

/-- The width of the rows that come in on a side from the given parents. -/
def inputWidth (D : Declared V) : List DeclId → Side → Nat
  | [q], _ => D.width q
  | [l, _], .left => D.width l
  | [_, r], .right => D.width r
  | _, _ => 0

theorem shapes (h : Compiled g domain net) (hf : Formed g.declarations)
    (hb : net.nodes[c]? = some b) (hd : declaredIn g.declarations b.decl = some d) :
    (net.kindAt c).Shapes (inputWidth (declaredIn g.declarations) d.key.parents)
      (widthAt g net c) := by
  have hshape := hf.shape b.decl d hd
  have hwidth : widthAt g net c = d.width := by
    unfold widthAt Declared.width
    rw [hb]
    change ((declaredIn g.declarations) b.decl).elim 0 (·.width) = d.width
    rw [hd]
    rfl
  obtain ⟨d', hd', hblank, -⟩ := h.candidate hb
  obtain rfl := Option.some.inj (hd.symm.trans hd')
  rw [hwidth]
  cases hop : d.operation with
  | source type u =>
      rw [hop] at hshape hblank
      obtain ⟨_, -, hk⟩ := hblank
      rw [hk]
      exact hshape.2
  | score i =>
      rw [hop] at hshape hblank
      obtain ⟨_, -, hk⟩ := hblank
      obtain ⟨q, hq, -, hw⟩ := hshape
      rw [hk, hq]
      exact hw
  | foreBridge _ | aftBridge | filter _ =>
      rw [hop] at hshape hblank
      obtain ⟨q, hq, -, hw⟩ := hshape
      rw [show net.kindAt c = _ from hblank, hq]
      exact hw
  | map _ | group _ _ =>
      rw [hop] at hshape hblank
      obtain ⟨q, hq, -, hw⟩ := hshape
      rw [show net.kindAt c = _ from hblank]
      exact hw
  | flattenLast _ =>
      rw [hop] at hshape hblank
      obtain ⟨q, hq, -, hw, hexpand⟩ := hshape
      rw [show net.kindAt c = _ from hblank, hq]
      exact ⟨hw, hexpand⟩
  | join _ | «exists» _ _ =>
      rw [hop] at hshape hblank
      obtain ⟨l, r, hp, -, -, hw⟩ := hshape
      rw [show net.kindAt c = _ from hblank, hp]
      exact hw
  | concat =>
      rw [hop] at hshape hblank
      obtain ⟨l, r, hp, -, -, hl, hr⟩ := hshape
      rw [show net.kindAt c = _ from hblank, hp]
      exact ⟨hl, hr⟩

/-- Nodes hear rows of the width that their declaration expects. -/
theorem inputWidth_eq (h : Compiled g domain net) (hf : Formed g.declarations)
    (hb : net.nodes[c]? = some b) (hd : declaredIn g.declarations b.decl = some d)
    (hec : net.Below e c) : inputWidth (declaredIn g.declarations) d.key.parents (net.outward e) =
      widthAt g net e := by
  obtain ⟨a, ha, -⟩ := id hec
  have hwidth : widthAt g net e = (declaredIn g.declarations).width a.decl := by
    unfold widthAt
    rw [ha]
    rfl
  rw [hwidth]
  rcases h.feeders hf hb hd with ⟨q, hp, -, hall⟩ | ⟨l, r, hp, -, -, hall⟩ | ⟨-, -, hnone⟩
  · rw [hp, (hall e a ha hec).1]
    rfl
  · rw [hp]
    rcases hall e a ha hec with ⟨hl, hs⟩ | ⟨hr, hs⟩
    · rw [hl, hs]
      rfl
    · rw [hr, hs]
      rfl
  · exact absurd hec (hnone e)

/-- What is below a node and not a bridge hears of tuples, and on the left if it has one input. -/
theorem reader (h : Compiled g domain net) (hf : Formed g.declarations) (hec : net.Below e c)
    (hc : ¬net.IsBridge c) :
    (net.kindAt c).isReader ∧ ((net.kindAt c).isSingle → net.outward e = .left) := by
  obtain ⟨a, b, d, ha, hb, hd, -⟩ := h.of_below hf hec
  obtain ⟨d', hd', hblank, -⟩ := h.candidate hb
  obtain rfl := Option.some.inj (hd.symm.trans hd')
  have hbridge := mt (h.isBridge_iff hb hd).mpr hc
  have hshape := hf.shape b.decl d hd
  rcases h.feeders hf hb hd with ⟨q, hp, -, hall⟩ | ⟨l, r, hp, -, -, hall⟩ | ⟨-, -, hnone⟩
  · refine ⟨?_, fun _ => (hall e a ha hec).2⟩
    cases hop : d.operation with
    | source type u =>
        rw [hop] at hshape
        cases hp.symm.trans hshape.1
    | foreBridge side => exact absurd (Or.inl ⟨side, hop⟩) hbridge
    | aftBridge => exact absurd (Or.inr hop) hbridge
    | score i =>
        rw [hop] at hblank
        obtain ⟨_, -, hk⟩ := hblank
        rw [hk]
        rfl
    | _ =>
        rw [hop] at hblank
        rw [show net.kindAt c = _ from hblank]
        rfl
  · cases hop : d.operation with
    | join _ | «exists» _ _ | concat =>
        rw [hop] at hblank
        rw [show net.kindAt c = _ from hblank]
        exact ⟨rfl, fun hsingle => by cases hsingle⟩
    | source type u =>
        rw [hop] at hshape
        cases hp.symm.trans hshape.1
    | _ =>
        rw [hop] at hshape
        obtain ⟨q, hq, -⟩ := hshape
        cases hp.symm.trans hq
  · exact absurd hec (hnone e)

theorem mem_order (h : Compiled g domain net) : c ∈ net.order ↔ c < net.nodes.size := by
  rw [h.order, settleOrder, List.mem_mergeSort, List.mem_range]

theorem order_nodup (h : Compiled g domain net) : net.order.Nodup := by
  rw [h.order, settleOrder]
  exact (List.mergeSort_perm _ _).nodup_iff.mpr List.nodup_range

/-- Nodes come in the order of their ranks. -/
theorem order_sorted (h : Compiled g domain net) :
    net.order.Pairwise fun a b => rankAt net.nodes a ≤ rankAt net.nodes b := by
  rw [h.order]
  exact (settleOrder_pairwise net.nodes).imp fun hab => hab.elim Nat.le_of_lt fun heq => heq.1.le

/-- A reader has a higher rank than the nodes it hears from, so its turn comes later. -/
theorem later (h : Compiled g domain net) (hf : Formed g.declarations) {p : NodeId} {r : Route}
    {before after : List NodeId} (hr : r ∈ net.routesOf p) (ho : net.order = before ++ p :: after) :
    r.node ∈ after := by
  have hl := h.laid hf
  obtain ⟨e, hpe, hb, -, -⟩ := hl.mem_routesOf.mp hr
  have hrank := Nat.lt_of_le_of_lt (h.rank_le hf hpe) (h.rank_lt hf hb)
  have hmem := h.mem_order.mpr (hl.exists_node e r.node hb)
  have hsorted := h.order_sorted
  rw [ho] at hmem hsorted
  -- Nodes that come before `p` have no higher rank than it has.
  rcases List.mem_append.mp hmem with hbefore | hafter
  · have hle := (List.pairwise_append.mp hsorted).2.2 r.node hbefore p List.mem_cons_self
    exact absurd hrank (Nat.not_lt.mpr hle)
  · rcases List.mem_cons.mp hafter with heq | hafter
    · rw [heq] at hrank
      exact absurd hrank (Nat.lt_irrefl _)
    · exact hafter

theorem shapes_heard (h : Compiled g domain net) (hf : Formed g.declarations) (id : NodeId) :
    ∃ widthOf, (net.kindAt id).Shapes widthOf (widthAt g net id) ∧
      ∀ p σ, ⟨id, σ⟩ ∈ net.routesOf p → (net.kindAt p).isBridge = false →
        widthOf σ = widthAt g net p := by
  have hl := h.laid hf
  cases hnode : net.nodes[id]? with
  | none =>
      have hkind : net.kindAt id = .aftBridge := by
        unfold kindAt
        rw [hnode]
        rfl
      refine ⟨fun _ => widthAt g net id, hkind ▸ rfl, fun p side hr => ?_⟩
      obtain ⟨e, -, hb, -, -⟩ := hl.mem_routesOf.mp hr
      have hlt := hl.exists_node e id hb
      rw [Array.getElem?_eq_getElem hlt] at hnode
      cases hnode
  | some b =>
      obtain ⟨d, hd, -, -⟩ := h.candidate hnode
      refine ⟨_, h.shapes hf hnode hd, fun p side hr _ => ?_⟩
      obtain ⟨e, hpe, hb, -, rfl⟩ := hl.mem_routesOf.mp hr
      rw [h.inputWidth_eq hf hnode hd hb, h.width_eq hf hpe]

/-- The constraint of a node that scores has a place in the ledger. -/
theorem constraint_lt (h : Compiled g domain net) {id : NodeId} {n : ScoreNode V S}
    (hn : net.kindAt id = .score n) : n.constraint < net.ledger.totals.size := by
  obtain ⟨b, hb, -⟩ := node_of_kindAt hn rfl
  obtain ⟨d, -, hblank, -⟩ := h.candidate hb
  have hsize : net.ledger.totals.size = g.constraints.size := by
    rw [h.ledger]
    simp [Ledger.new]
  rw [hsize]
  rw [hn] at hblank
  cases hop : d.operation with
  | score i =>
      rw [hop] at hblank
      obtain ⟨k, hk, hscore⟩ := hblank
      rw [NodeKind.score.inj hscore]
      exact (Array.getElem?_eq_some_iff.mp hk).1
  | source _ _ =>
      rw [hop] at hblank
      obtain ⟨_, -, hk⟩ := hblank
      cases hk
  | _ =>
      rw [hop] at hblank
      cases hblank

theorem wired (h : Compiled g domain net) (hf : Formed g.declarations) :
    Wired net (widthAt g net) := by
  have hl := h.laid hf
  refine ⟨?_, hl.routes_nodup, fun p p' r hr hr' hp hp' => ?_, fun p r hr => ?_,
    fun p r before after => h.later hf, h.order_nodup, fun id => h.mem_order.mpr,
    h.shapes_heard hf, fun id n => h.constraint_lt⟩
  · rw [h.queues, Array.size_replicate]
  · exact hl.producer (hl.mem_routesOf.mp hr) (hl.mem_routesOf.mp hr') (by simp [IsBridge, hp])
      (by simp [IsBridge, hp'])
  · obtain ⟨e, -, hb, hbridge, hside⟩ := hl.mem_routesOf.mp hr
    rw [hside]
    exact h.reader hf hb hbridge

theorem unused (h : Compiled g domain net) [LawfulScore S] : net.Unused := by
  refine ⟨h.arena, fun id => ?_, fun id => ?_, ?_⟩
  · unfold Network.queue
    rw [h.queues]
    by_cases hid : id < net.nodes.size <;> simp [hid, Array.getD_eq_getD_getElem?]
  · cases hnode : net.nodes[id]? with
    | none =>
        unfold kindAt
        rw [hnode]
        rfl
    | some b =>
        obtain ⟨d, -, hblank, -⟩ := h.candidate hnode
        exact hblank.blank
  · rw [h.ledger]
    exact Ledger.balances_new _

end Compiled

end Network

end ConstraintScoring
