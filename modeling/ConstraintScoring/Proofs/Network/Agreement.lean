import ConstraintScoring.Proofs.Network.Meaning
import ConstraintScoring.Proofs.Query.Agreement
import ConstraintScoring.Proofs.Score.Weights

/-!
# What decides the matches and totals

When nothing waits, the matches that a node scores are what its query yields over the facts, each
with its impact. So two networks that score a query in the same way over the same facts come to the
same matches and the same total, however they came by these facts and whatever else they score, as
long as the groups that lead to these matches can be compared.
-/

namespace ConstraintScoring

variable {V S : Type}

section Impacts

variable [Cell V] [Score S] {k : Likeness} {n n' : ScoreNode V S}

/-- Equal rows weigh the same. -/
def WeighsAlike (k : Likeness) (weigher : Option (Row V → Except Fault MatchWeight)) : Prop :=
  ∀ weigh, weigher = some weigh → Alike k MatchWeight.Same weigh

omit [Cell V] in
theorem ScoreNode.impactOf_congr (himpact : n.impact = n'.impact) (hweight : n.weight = n'.weight)
    (hweigher : n.weigher = n'.weigher) : n.impactOf = n'.impactOf := by
  unfold impactOf matchWeight
  rw [himpact, hweight, hweigher]

theorem ScoreNode.impactOf_alike (h : WeighsAlike k n.weigher) :
    ConstraintScoring.Alike k Eq n.impactOf := by
  intro row row' hrow
  have hweight : k.Agree MatchWeight.Same (n.matchWeight row) (n.matchWeight row') := by
    unfold matchWeight
    cases hw : n.weigher with
    | some weigh => exact h weigh hw row row' hrow
    | none => exact Likeness.agree_ok rfl
  refine hweight.bind fun w w' hww => ?_
  rw [Score.timesWeight_congr n.weight hww]
  refine ⟨fun a b ha hb => Except.ok.inj (ha.symm.trans hb), fun _ => Iff.rfl⟩

end Impacts

section Scores

variable [Cell V] [Std.TransOrd V] [Score S] {n n' : ScoreNode V S} {ρ ρ' : TupleId → Row V}
  {domain : DomainModel V} {facts facts' : Multiset (Fact V)} {P P' : Presentation V} {q : Query V}

/-- The matches of a node are the rows that a query yields, each with its impact. -/
def ScoreNode.Scores (n : ScoreNode V S) (ρ : TupleId → Row V) (domain : DomainModel V)
    (facts : Multiset (Fact V)) (P : Presentation V) (q : Query V) : Prop :=
  ∃ R, q.Yields domain facts P R ∧
    Mapped (fun row => (n.impactOf row).map (row, ·)) R (n.scored ρ)

/-- A row with its impact is the same match if the row is equal and the impact the same. -/
abbrev SameMatch (x y : Row V × S) : Prop := SameRow x.1 y.1 ∧ x.2 = y.2

/-- Nodes that score one query in the same way over equal facts have equal matches. -/
theorem ScoreNode.Scores.agree (h : n.Scores ρ domain facts P q)
    (h' : n'.Scores ρ' domain facts' P' q) (hq : q.Alike .results)
    (hfacts : Multiset.Rel SameFact facts facts') (hP : P.Agree P')
    (hw : WeighsAlike .results n.weigher) (hsame : n.impactOf = n'.impactOf) :
    Multiset.Rel SameMatch (n.scored ρ) (n'.scored ρ') := by
  obtain ⟨R, hR, hscored⟩ := h
  obtain ⟨R', hR', hscored'⟩ := h'
  rw [← hsame] at hscored'
  refine hscored.agree hscored' (hR.agree hR' hq hfacts hP) fun row row' hrow => ?_
  refine ⟨fun x y hx hy => ?_, fun hk => by cases hk⟩
  obtain ⟨a, ha, rfl⟩ := Outcome.map_eq_ok.mp hx
  obtain ⟨b, hb, rfl⟩ := Outcome.map_eq_ok.mp hy
  exact ⟨hrow, (ScoreNode.impactOf_alike hw row row' hrow).results a b ha hb⟩

omit [Std.TransOrd V] in
theorem bag_eq_of_scored (h : Multiset.Rel SameMatch (n.scored ρ) (n'.scored ρ')) :
    n.bag = n'.bag := by
  rw [n.bag_eq_scored ρ, n'.bag_eq_scored ρ', ← Multiset.rel_eq]
  exact Bag.rel_map_of h fun x y hxy => hxy.2

end Scores

section Facts

variable [Cell V] [Std.TransOrd V] {facts facts' : Table (FactKey V) V}

/-- Tables with the same cell for each key hold the same facts, in whatever order. -/
theorem factsIn_same (hd : facts.Distinct) (hd' : facts'.Distinct)
    (h : ∀ k, facts.get? k = facts'.get? k) :
    Multiset.Rel SameFact (factsIn facts) (factsIn facts') := by
  have hr : Equivalence fun e e' : FactKey V × V => (e.1 == e'.1) = true :=
    ⟨fun _ => BEq.rfl, fun hee => BEq.symm hee, fun h₁ h₂ => BEq.trans h₁ h₂⟩
  have hpairwise : ∀ {T : Table (FactKey V) V}, T.Distinct →
      T.entries.Pairwise fun e e' => ¬(e.1 == e'.1) = true := fun hT =>
    hT.imp fun hee => Bool.eq_false_iff.mp hee
  have hcovers : ∀ {T : Table (FactKey V) V} (c : FactKey V × V), T.Distinct →
      ((∃ e ∈ T.entries, (e.1 == c.1) = true) ↔ (T.get? c.1).isSome) := by
    intro T c hT
    rw [Option.isSome_iff_exists]
    constructor
    · rintro ⟨e, he, hec⟩
      exact ⟨e.2, hT.get?_of_mem he hec⟩
    · rintro ⟨b, hb⟩
      obtain ⟨l, hl, hlc⟩ := Table.mem_of_get? hb
      exact ⟨(l, b), hl, hlc⟩
  have hrel := Bag.rel_of_covers hr (hpairwise hd) (hpairwise hd') fun c => by
    rw [hcovers c hd, hcovers c hd', h]
  unfold factsIn
  rw [← Multiset.map_coe, ← Multiset.map_coe]
  refine Bag.rel_map_of (Bag.rel_mem hrel) ?_
  rintro ⟨key, cell⟩ ⟨key', cell'⟩ ⟨hkeys, he, he'⟩
  have hcell : facts.get? key = some cell := hd.get?_of_mem he BEq.rfl
  have hcell' : facts'.get? key = some cell' := hd'.get?_of_mem he' (BEq.symm hkeys)
  refine ⟨?_, Option.some.inj (hcell.symm.trans ((h key).trans hcell'))⟩
  exact eq_of_beq (Bool.and_eq_true_iff.mp hkeys).1

end Facts

namespace Moment

variable {m m' : Moment V S}

theorem Idle.done (hi : m.Idle) (p : NodeId) : m.Done p := by
  refine ⟨?_, ?_⟩
  · unfold waiting
    rw [hi.1]
    exact congrArg Array.toList (hi.2 p)
  · unfold telling?
    rw [hi.1]
    exact fun t ht => by cases ht

variable [Cell V]

theorem Idle.settledTo (hi : m.Idle) : m.SettledTo m.net.order := by
  refine ⟨⟨[], (List.append_nil _).symm⟩, fun p _ => hi.done p, fun id => ?_⟩
  unfold factsFor
  rw [hi.1]

variable [Std.TransOrd V] [Score S] {net₀ : Network V S} {width : NodeId → Nat}
  {g : DeclarationGraph V S} {domain : DomainModel V} {id : NodeId} {a : NetworkNode V S}
  {q : Query V} {n : ScoreNode V S}

namespace Sound

/-- When nothing waits, a node scores the rows that its query yields. -/
theorem scored (h : Sound net₀ width m) (hw : Network.Wired net₀ width)
    (hc : Network.Compiled g domain net₀) (hf : Formed g.declarations) (hi : m.Idle)
    (ha : net₀.nodes[id]? = some a) (hq : Unfolds (declaredIn g.declarations) a.decl q)
    (hn : m.net.kindAt id = .score n) : n.Scores m.net.arena.row domain (factsIn m.facts)
      ((m.net.presents id).under .left) q := by
  have hwm := hw.like h.like
  have hs := hi.settledTo
  have hturn : m.Turn m.net.order id :=
    Or.inl (hwm.mem_order id (Network.lt_of_kindAt hn rfl))
  have hbridge : ¬net₀.IsBridge id := by
    unfold Network.IsBridge
    rw [← h.like.isBridge, hn]
    exact Bool.false_ne_true
  have hbooks := h.books id
  rw [hn] at hbooks
  refine ⟨_, ?_, hbooks.scored (h.informed hwm hs.order hs.done hturn)⟩
  obtain ⟨d, hd, hperforms⟩ := performs h.like hc ha
  rw [hn] at hperforms
  cases hq with
  | unary hdecl hparents hparent hop =>
      obtain rfl := Option.some.inj (hd.symm.trans hdecl)
      rw [hperforms.of_score.1] at hop
      obtain rfl := Option.some.inj hop
      obtain ⟨p, hfeeds⟩ := hc.feeds_one hf hbridge ha hd hparents hparent
      exact h.feed_yields hw hs.order hturn hfeeds fun b hb htp hbp hsp hqp =>
        h.yields hw hc hf hs hb htp hbp hsp hqp
  | leaf hdecl _ hop | binary hdecl _ _ _ hop =>
      obtain rfl := Option.some.inj (hd.symm.trans hdecl)
      rw [hperforms.of_score.1] at hop
      cases hop

end Sound

end Moment

end ConstraintScoring
