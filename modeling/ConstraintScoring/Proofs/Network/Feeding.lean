import ConstraintScoring.Proofs.Graph.Query
import ConstraintScoring.Proofs.Network.Layout

/-!
# Who feeds a node

Every input of a node that is not a bridge comes from one node that makes tuples, through nothing
but bridges, and that node computes the query of the input. A node performs the operation of its
declaration at all times.
-/

namespace ConstraintScoring

variable {V S : Type}

namespace Network

section Performing

/-- The node performs an operation. -/
def Performs (g : DeclarationGraph V S) (domain : DomainModel V) (k : NodeKind V S) :
    Operation V → Prop
  | .source type includeUnassigned => ∃ c n, domain.class? type = some c ∧ k = .source n ∧
      n.type = type ∧
      n.assignedOnly = if includeUnassigned || !c.canBeUnassigned then none else some c
  | .foreBridge side => k = .foreBridge side
  | .aftBridge => k = .aftBridge
  | .filter accepts => ∃ n, k = .filter n ∧ n.accepts = accepts
  | .join indexer => ∃ n, k = .join n ∧ n.indexer = indexer
  | .exists shouldExist indexer => ∃ n, k = .exists n ∧ n.shouldExist = shouldExist ∧
      n.indexer = indexer
  | .group keys collectors => ∃ n, k = .group n ∧ n.keys = keys ∧ n.collectors = collectors
  | .map columns => ∃ n, k = .map n ∧ n.columns = columns
  | .flattenLast expand => ∃ n, k = .flatten n ∧ n.expand = expand
  | .concat => ∃ n, k = .concat n
  | .score constraint => ∃ c n, g.constraints[constraint]? = some c ∧ k = .score n ∧
      n.constraint = constraint ∧ n.impact = c.impact ∧ n.weight = c.weight ∧ n.weigher = c.weigher

variable {g : DeclarationGraph V S} {domain : DomainModel V}

/-- A node performs the operation it was made for, whatever it has heard of since. -/
theorem performs_of_blank {k : NodeKind V S} {op : Operation V} (h : Blank g domain k.blank op) :
    Performs g domain k op := by
  cases op with
  | source type u =>
      obtain ⟨c, hc, hk⟩ := h
      cases k with
      | source n =>
          have hn := NodeKind.source.inj hk
          exact ⟨c, n, hc, rfl, congrArg (·.type) hn, congrArg (·.assignedOnly) hn⟩
      | _ => cases hk
  | score i =>
      obtain ⟨c, hc, hk⟩ := h
      cases k with
      | score n =>
          have hn := NodeKind.score.inj hk
          exact ⟨c, n, hc, rfl, congrArg (·.constraint) hn, congrArg (·.impact) hn,
            congrArg (·.weight) hn, congrArg (·.weigher) hn⟩
      | _ => cases hk
  | foreBridge side =>
      cases k <;> cases h
      rfl
  | aftBridge =>
      cases k <;> cases h
      rfl
  | «exists» shouldExist indexer =>
      cases k <;> cases h
      exact ⟨_, rfl, rfl, rfl⟩
  | group keys collectors =>
      cases k <;> cases h
      exact ⟨_, rfl, rfl, rfl⟩
  | concat =>
      cases k <;> cases h
      exact ⟨_, rfl⟩
  | filter _ | join _ | map _ | flattenLast _ =>
      cases k <;> cases h
      exact ⟨_, rfl, rfl⟩

theorem Blank.performs {k : NodeKind V S} {op : Operation V} (h : Blank g domain k op) :
    Performs g domain k op :=
  performs_of_blank (h.blank.symm ▸ h)

/-- What a source performs. -/
theorem Performs.of_source {n : SourceNode V} {op : Operation V}
    (h : Performs g domain (.source n : NodeKind V S) op) : ∃ u c, op = .source n.type u ∧
      domain.class? n.type = some c ∧
      n.assignedOnly = if u || !c.canBeUnassigned then none else some c := by
  cases op with
  | source type u =>
      obtain ⟨c, n', hc, hk, rfl, honly⟩ := h
      obtain rfl := NodeKind.source.inj hk
      exact ⟨u, c, rfl, hc, honly⟩
  | score _ =>
      obtain ⟨_, _, -, hk, -⟩ := h
      cases hk
  | foreBridge _ | aftBridge => cases h
  | _ =>
      obtain ⟨_, hk⟩ := h
      first
        | cases hk.1
        | cases hk

/-- What a node that groups performs. -/
theorem Performs.of_group {n : GroupNode V} {op : Operation V}
    (h : Performs g domain (.group n : NodeKind V S) op) : op = .group n.keys n.collectors := by
  cases op with
  | group keys collectors =>
      obtain ⟨n', hk, rfl, rfl⟩ := h
      rw [NodeKind.group.inj hk]
  | source _ _ =>
      obtain ⟨_, _, -, hk, -⟩ := h
      cases hk
  | score _ =>
      obtain ⟨_, _, -, hk, -⟩ := h
      cases hk
  | foreBridge _ | aftBridge => cases h
  | _ =>
      obtain ⟨_, hk⟩ := h
      first
        | cases hk.1
        | cases hk

/-- What a node that scores performs. -/
theorem Performs.of_score {n : ScoreNode V S} {op : Operation V}
    (h : Performs g domain (.score n) op) : op = .score n.constraint ∧
      ∃ c, g.constraints[n.constraint]? = some c ∧ n.impact = c.impact ∧ n.weight = c.weight ∧
        n.weigher = c.weigher := by
  cases op with
  | score i =>
      obtain ⟨c, n', hc, hk, rfl, hfields⟩ := h
      obtain rfl := NodeKind.score.inj hk
      exact ⟨rfl, c, hc, hfields⟩
  | source _ _ =>
      obtain ⟨_, _, -, hk, -⟩ := h
      cases hk
  | foreBridge _ | aftBridge => cases h
  | _ =>
      obtain ⟨_, hk⟩ := h
      first
        | cases hk.1
        | cases hk

end Performing

section Feeding

variable [Score S] {g : DeclarationGraph V S} {domain : DomainModel V} {net : Network V S}
  {p c e : NodeId} {a b : NetworkNode V S} {d : Candidate V} {q q' : Query V}

namespace Compiled

/-- What comes through a bridge was made by a node with the bridge's query. -/
theorem maker (h : Compiled g domain net) (hf : Formed g.declarations) (e : NodeId)
    {b : NetworkNode V S} (hb : net.nodes[e]? = some b)
    (hq : Unfolds (declaredIn g.declarations) b.decl q) :
    ∃ p a, net.nodes[p]? = some a ∧ ¬net.IsBridge p ∧ net.Behind p e ∧
      Unfolds (declaredIn g.declarations) a.decl q := by
  -- A bridge stands after what it hands on, so going back through bridges comes to an end.
  induction e using Nat.strong_induction_on generalizing b with
  | _ e ih =>
      by_cases hbridge : net.IsBridge e
      · obtain ⟨d, hd, -, hparents⟩ := h.candidate hb
        have hshape := hf.shape b.decl d hd
        have hone : ∃ P, d.key.parents = [P] ∧ d.operation.query [q] = some q ∧
            ∀ q', d.operation.query [q'] = some q → q' = q := by
          rcases (h.isBridge_iff hb hd).mp hbridge with ⟨side, hop⟩ | hop <;>
            rw [hop] at hshape ⊢ <;> obtain ⟨P, hP, -⟩ := hshape <;>
            exact ⟨P, hP, rfl, fun q' hq' => Option.some.inj hq'⟩
        obtain ⟨P, hP, -, hquery⟩ := hone
        have hparent : Unfolds (declaredIn g.declarations) P q := by
          cases hq with
          | leaf hc hnil =>
              obtain rfl := Option.some.inj (hd.symm.trans hc)
              rw [hP] at hnil
              cases hnil
          | unary hc hP' hq' hop =>
              obtain rfl := Option.some.inj (hd.symm.trans hc)
              rw [hP] at hP'
              cases hP'
              rwa [← hquery _ hop]
          | binary hc hP' =>
              obtain rfl := Option.some.inj (hd.symm.trans hc)
              rw [hP] at hP'
              cases hP'
        obtain ⟨j, a, ha, hdecl, -⟩ := hparents P (hP ▸ List.mem_singleton_self P)
        have hbelow : net.Below j e := (h.below_iff hf ha hb hd).mpr
          (hdecl ▸ hP ▸ List.mem_singleton_self P)
        obtain ⟨p, a', ha', hp, hbehind, hq⟩ :=
          ih j ((h.laid hf).lt j e hbelow) ha (hdecl ▸ hparent)
        exact ⟨p, a', ha', hp, .step hbehind hbelow hbridge, hq⟩
      · exact ⟨e, b, hb, hbridge, .refl, hq⟩

/-- Nothing is below the end of a stream. -/
theorem not_score (h : Compiled g domain net) (hf : Formed g.declarations) (hpc : net.Below p c)
    (n : ScoreNode V S) : net.kindAt p ≠ .score n := by
  intro hn
  obtain ⟨a, b, d, ha, hb, hd, hp⟩ := h.of_below hf hpc
  obtain ⟨d', hd', hblank, -⟩ := h.candidate ha
  rw [hn] at hblank
  exact hf.ne_score hd hp hd' _ hblank.performs.of_score.1

omit [Score S] in
theorem exists_below (h : net.Behind p e) (hec : net.Below e c) : ∃ x, net.Below p x := by
  induction h generalizing c with
  | refl => exact ⟨c, hec⟩
  | step _ hqe _ ih => exact ih hqe

/-- A node that makes tuples with a query, and whose tuples a reader hears of. -/
structure Feeds (g : DeclarationGraph V S) (net : Network V S) (c : NodeId) (σ : Side) (q : Query V)
    (p : NodeId) : Prop where
  maker : ¬net.IsBridge p
  inner : ∀ n, net.kindAt p ≠ .score n
  route : ⟨c, σ⟩ ∈ net.routesOf p
  lt : p < c
  unfolds : ∃ a, net.nodes[p]? = some a ∧ Unfolds (declaredIn g.declarations) a.decl q

theorem feeds_of_parent (h : Compiled g domain net) (hf : Formed g.declarations)
    (hc : ¬net.IsBridge c) (hb : net.nodes[c]? = some b)
    (hd : declaredIn g.declarations b.decl = some d) {P : DeclId} {σ : Side}
    (hP : P ∈ d.key.parents)
    (hside : ∀ (e : NodeId) a, net.nodes[e]? = some a → a.decl = P → net.outward e = σ)
    (hq : Unfolds (declaredIn g.declarations) P q) : ∃ p, Feeds g net c σ q p := by
  obtain ⟨d', hd', -, hparents⟩ := h.candidate hb
  obtain rfl := Option.some.inj (hd.symm.trans hd')
  obtain ⟨e, a, ha, hdecl, -⟩ := hparents P hP
  have hbelow : net.Below e c := (h.below_iff hf ha hb hd).mpr (hdecl ▸ hP)
  obtain ⟨p, a', ha', hp, hbehind, hq'⟩ := h.maker hf e ha (hdecl ▸ hq)
  obtain ⟨x, hx⟩ := exists_below hbehind hbelow
  refine ⟨p, hp, h.not_score hf hx, ?_, ?_, a', ha', hq'⟩
  · exact (h.laid hf).mem_routesOf.mpr ⟨e, hbehind, hbelow, hc, (hside e a ha hdecl).symm⟩
  · exact Nat.lt_of_le_of_lt (hbehind.le (h.laid hf)) ((h.laid hf).lt e c hbelow)

theorem feeds_one (h : Compiled g domain net) (hf : Formed g.declarations)
    (hc : ¬net.IsBridge c) (hb : net.nodes[c]? = some b)
    (hd : declaredIn g.declarations b.decl = some d) {P : DeclId} (hP : d.key.parents = [P])
    (hq : Unfolds (declaredIn g.declarations) P q) : ∃ p, Feeds g net c .left q p := by
  have hplain : (declaredIn g.declarations).Plain P := by
    rcases (hf.shape b.decl d hd).parents with ⟨hnil, -⟩ | ⟨P', hP', hplain⟩ | ⟨l, r, hlr, -⟩
    · rw [hP] at hnil
      cases hnil
    · rw [hP] at hP'
      cases hP'
      exact hplain
    · rw [hP] at hlr
      cases hlr
  exact h.feeds_of_parent hf hc hb hd (hP ▸ List.mem_singleton_self P)
    (fun e a ha hdecl => h.outward_plain ha (hdecl ▸ hplain)) hq

theorem feeds_two (h : Compiled g domain net) (hf : Formed g.declarations)
    (hc : ¬net.IsBridge c) (hb : net.nodes[c]? = some b)
    (hd : declaredIn g.declarations b.decl = some d) {l r : DeclId} (hP : d.key.parents = [l, r])
    (hl : Unfolds (declaredIn g.declarations) l q) (hr : Unfolds (declaredIn g.declarations) r q') :
    (∃ p, Feeds g net c .left q p) ∧ ∃ p, Feeds g net c .right q' p := by
  have hfore : (declaredIn g.declarations).Fore l .left ∧
      (declaredIn g.declarations).Fore r .right := by
    rcases (hf.shape b.decl d hd).parents with ⟨hnil, -⟩ | ⟨P', hP', -⟩ | ⟨l', r', hlr, hl, hr⟩
    · rw [hP] at hnil
      cases hnil
    · rw [hP] at hP'
      cases hP'
    · rw [hP] at hlr
      cases hlr
      exact ⟨hl, hr⟩
  constructor
  · exact h.feeds_of_parent hf hc hb hd (hP ▸ List.mem_cons_self)
      (fun e a ha hdecl => h.outward_fore ha (hdecl ▸ hfore.1)) hl
  · exact h.feeds_of_parent hf hc hb hd (hP ▸ List.mem_cons_of_mem l (List.mem_singleton_self r))
      (fun e a ha hdecl => h.outward_fore ha (hdecl ▸ hfore.2)) hr

end Compiled

end Feeding

end Network

end ConstraintScoring
