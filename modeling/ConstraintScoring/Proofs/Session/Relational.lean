import ConstraintScoring.Proofs.Network.Resting
import ConstraintScoring.Proofs.Session.Providers

/-!
# What the nodes of a settled session hold

When a session has settled, the tuples of every node are what the query of its declaration denotes
over the facts of the session: bridges hand on the tuples of the node behind them, and a node that
scores has those of the node that feeds it. The groups on the way must hold the sums and means of
their members; groups that are given no decimal places always do.
-/

namespace ConstraintScoring

variable {V S : Type}

namespace Network

/-- The second node makes the tuples that the first one hands on or scores, or its own. -/
inductive Carries (net : Network V S) (id : NodeId) : NodeId → Prop where
  | own : ¬net.IsBridge id → (∀ n, net.kindAt id ≠ .score n) → Carries net id id
  | bridge {p} : net.IsBridge id → ¬net.IsBridge p → net.Behind p id → Carries net id p
  | scored {p n} : net.kindAt id = .score n → ¬net.IsBridge p → ⟨id, .left⟩ ∈ net.routesOf p →
      Carries net id p

section

variable {net₀ net : Network V S} {p p' id : NodeId}

theorem Like.below (h : Like net₀ net) (hb : net₀.Below p id) : net.Below p id := by
  obtain ⟨a, ha, hid⟩ := hb
  obtain ⟨a', ha', -, -, hchildren⟩ := h.symm.node ha
  exact ⟨a', ha', hchildren ▸ hid⟩

theorem Like.bridge_iff (h : Like net₀ net) : net.IsBridge p ↔ net₀.IsBridge p := by
  unfold IsBridge
  rw [h.isBridge]

theorem Like.not_score (h : Like net₀ net) (hp : ∀ n, net₀.kindAt p ≠ .score n) :
    ∀ n, net.kindAt p ≠ .score n := by
  intro n hn
  obtain ⟨n', hn', -⟩ := h.score hn
  exact hp n' hn'

theorem Like.behind (h : Like net₀ net) (hb : net₀.Behind p id) : net.Behind p id := by
  induction hb with
  | refl => exact .refl
  | step _ hqe he ih => exact .step ih (h.below hqe) (h.bridge_iff.mpr he)

/-- The tuples that a node hands on or scores were made by one node only. -/
theorem Carries.unique {width : NodeId → Nat} (hlike : Like net₀ net) (hl : net₀.Laid)
    (hw : Wired net₀ width) (h : net.Carries id p) (h' : net.Carries id p') : p = p' := by
  cases h with
  | own hid hscore =>
      cases h' with
      | own => rfl
      | bridge hbridge => exact absurd hbridge hid
      | scored hn => exact absurd hn (hscore _)
  | bridge hid hp hpid =>
      cases h' with
      | own hid' => exact absurd hid hid'
      | bridge _ hp' hpid' =>
          rcases (hlike.symm.behind hpid).total (hlike.symm.behind hpid') hl with h | h
          · exact h.eq_of_not_bridge (mt hlike.bridge_iff.mpr hp')
          · exact (h.eq_of_not_bridge (mt hlike.bridge_iff.mpr hp)).symm
      | scored hn =>
          unfold IsBridge at hid
          rw [hn] at hid
          cases hid
  | scored hn hp hr =>
      cases h' with
      | own _ hscore => exact absurd hn (hscore _)
      | bridge hid =>
          unfold IsBridge at hid
          rw [hn] at hid
          cases hid
      | scored hn' hp' hr' =>
          exact (hw.like hlike).producer p p' _ hr hr' (Bool.eq_false_iff.mpr hp)
            (Bool.eq_false_iff.mpr hp')

variable [Score S] {g : DeclarationGraph V S} {domain : DomainModel V} {a : NetworkNode V S}
  {n : ScoreNode V S} {q : Query V}

/-- Behind a bridge is a node that computes its query. -/
theorem Compiled.carried_of_bridge (h : Compiled g domain net₀) (hlike : Like net₀ net)
    (hf : Formed g.declarations) (ha : net.nodes[id]? = some a) (hbridge : net.IsBridge id)
    (hq : Unfolds (declaredIn g.declarations) a.decl q) :
    ∃ p b, net.Carries id p ∧ net.nodes[p]? = some b ∧ ¬net.IsBridge p ∧
      (∀ n, net.kindAt p ≠ .score n) ∧ Unfolds (declaredIn g.declarations) b.decl q := by
  obtain ⟨a₀, ha₀, hdecl, -⟩ := hlike.node ha
  obtain ⟨p, b₀, hb₀, hp, hbehind, hunfolds⟩ := h.maker hf id ha₀ (hdecl ▸ hq)
  obtain ⟨b, hb, hbdecl, -⟩ := hlike.symm.node hb₀
  have hne : p ≠ id := fun heq => hp (heq ▸ hlike.bridge_iff.mp hbridge)
  -- Something is below the node that makes the tuples, so it is not the end of a stream.
  obtain ⟨x, hx⟩ : ∃ x, net₀.Below p x := by
    cases hbehind with
    | refl => exact absurd rfl hne
    | step hq hqe _ => exact Compiled.exists_below hq hqe
  have hp' : ¬net.IsBridge p := mt hlike.bridge_iff.mp hp
  exact ⟨p, b, .bridge hbridge hp' (hlike.behind hbehind), hb, hp',
    hlike.not_score (h.not_score hf hx), hbdecl ▸ hunfolds⟩

/-- A node that scores has the tuples, and the query, of the one that feeds it. -/
theorem Compiled.carried_of_score (h : Compiled g domain net₀) (hlike : Like net₀ net)
    (hf : Formed g.declarations) (ha : net.nodes[id]? = some a)
    (hkind : net.kindAt id = .score n)
    (hq : Unfolds (declaredIn g.declarations) a.decl q) :
    ∃ p b, net.Carries id p ∧ net.nodes[p]? = some b ∧ ¬net.IsBridge p ∧
      (∀ n, net.kindAt p ≠ .score n) ∧ Unfolds (declaredIn g.declarations) b.decl q := by
  obtain ⟨a₀, ha₀, hdecl, -⟩ := hlike.node ha
  obtain ⟨d, hd, hblank, -⟩ := h.candidate ha₀
  obtain ⟨n₀, hn₀, -⟩ := hlike.score hkind
  rw [hn₀] at hblank
  have hscore := hblank.performs.of_score.1
  have hbridge : ¬net₀.IsBridge id := by
    unfold IsBridge
    rw [hn₀]
    exact Bool.false_ne_true
  rw [← hdecl] at hq
  cases hq with
  | unary hc hparents hparent hquery =>
      obtain rfl := Option.some.inj (hd.symm.trans hc)
      rw [hscore] at hquery
      obtain rfl := Option.some.inj hquery
      obtain ⟨p, hfeeds⟩ := h.feeds_one hf hbridge ha₀ hd hparents hparent
      obtain ⟨b₀, hb₀, hunfolds⟩ := hfeeds.unfolds
      obtain ⟨b, hb, hbdecl, -⟩ := hlike.symm.node hb₀
      have hp' : ¬net.IsBridge p := mt hlike.bridge_iff.mp hfeeds.maker
      exact ⟨p, b, .scored hkind hp' (hlike.routesOf p ▸ hfeeds.route), hb, hp',
        hlike.not_score hfeeds.inner, hbdecl ▸ hunfolds⟩
  | leaf hc _ hquery | binary hc _ _ _ hquery =>
      obtain rfl := Option.some.inj (hd.symm.trans hc)
      rw [hscore] at hquery
      cases hquery

end

end Network

namespace SessionFactory.Settles

variable [Cell V] [Score S] [Std.TransOrd V] [LawfulScore S] {f : SessionFactory V S}
  {facts : Table (FactKey V) V} {net : Network V S} {id : NodeId} {a : NetworkNode V S} {q : Query V}

theorem resting (h : f.Settles facts net) (hf : Formed f.graph.declarations) : net.Resting := by
  obtain ⟨hcompiled, hm, hidle, -⟩ := h
  have hspec := Network.compile_spec hcompiled
  exact (hm.sound (hspec.wired hf) hspec.unused).resting hidle

/-- The node that makes the tuples which a node carries computes the query of that node. -/
theorem carried (h : f.Settles facts net) (hf : Formed f.graph.declarations)
    (ha : net.nodes[id]? = some a) (hq : Unfolds (declaredIn f.graph.declarations) a.decl q) :
    ∃ p b, net.Carries id p ∧ net.nodes[p]? = some b ∧ ¬net.IsBridge p ∧
      (∀ n, net.kindAt p ≠ .score n) ∧ Unfolds (declaredIn f.graph.declarations) b.decl q := by
  obtain ⟨net₀, hcompiled⟩ : ∃ net₀, Network.compile f.graph f.domain = .ok net₀ := by
    obtain ⟨hcompiled, -⟩ := h
    exact ⟨_, hcompiled⟩
  have hspec := Network.compile_spec hcompiled
  have hlike := h.like hf hcompiled
  by_cases hbridge : net.IsBridge id
  · exact hspec.carried_of_bridge hlike hf ha hbridge hq
  · cases hkind : net.kindAt id with
    | score n => exact hspec.carried_of_score hlike hf ha hkind hq
    | _ =>
        have hscore : ∀ n, net.kindAt id ≠ .score n := fun n hn => by
          rw [hkind] at hn
          cases hn
        exact ⟨id, a, .own hbridge hscore, ha, hbridge, hscore, hq⟩

end SessionFactory.Settles

namespace Session

variable [Cell V] [Score S] [Std.TransOrd V] [LawfulScore S] {N : Naming V}
  {settings : FactorySettings S} {domain : DomainModel V} {written : List (Written V S)}
  {chosen : List Constraint} {f : SessionFactory V S} {s : Session V S} {net : Network V S} {k : Nat}

/-- A node of a settled session carries the tuples of one node, whose rows its query denotes if it
has no groups or those on the way are precise. -/
theorem carried_denotes {b : GraphBuilder V S} (ho : SessionFactory.Origin N settings written chosen f b)
    (hs : Reached f s) (husable : s.poisoned = false)
    (hrun : Network.settle.run.run s.network = (.ok k, net)) {id : NodeId} {a : NetworkNode V S}
    (ha : net.nodes[id]? = some a) {q : Query V}
    (hq : Unfolds (declaredIn f.graph.declarations) a.decl q) :
    ∃ p, (∀ p', net.Carries id p' ↔ p' = p) ∧ (q.Groupless ∨ net.PreciseAt p →
      q.Denotes f.domain (factsIn s.facts) (rowsOf net.arena.row (net.outs p))) := by
  obtain ⟨net₀, hcompiled⟩ := Network.compile_ok ho.compilable
  have hspec := Network.compile_spec hcompiled
  have hsettles := hs.settles ho.formed husable hrun
  have hlike := hsettles.like ho.formed hcompiled
  obtain ⟨p, b, hcarries, hb, hbridge, hscore, hunfolds⟩ := hsettles.carried ho.formed ha hq
  refine ⟨p, fun p' => ⟨fun hp' => ?_, fun hp' => hp' ▸ hcarries⟩, ?_⟩
  · exact hp'.unique hlike (hspec.laid ho.formed) (hspec.wired ho.formed) hcarries
  · have hyields := hsettles.yields ho.formed hb (Bool.eq_false_iff.mpr hbridge) hscore hunfolds
    rintro (hgroupless | hprecise)
    · exact hyields.of_groupless hgroupless
    · exact hyields.mono fun _ _ _ _ _ => hprecise.shown

/-- When a session has settled, its tuples are the outputs of its nodes, and every active declaration
has a node that carries the rows which the query of the declaration denotes over the facts, as long as
the groups that lead to these rows are precise. -/
theorem settled_denotes (hf : f.ProvidedBy N settings domain written chosen) (hs : Reached f s)
    (husable : s.poisoned = false) (hrun : Network.settle.run.run s.network = (.ok k, net)) :
    net.Resting ∧
    (∀ decl < f.graph.size, f.graph.isActive decl →
      ∃ (id : NodeId) (a : NetworkNode V S), net.nodes[id]? = some a ∧ a.decl = decl) ∧
    ∀ (id : NodeId) a, net.nodes[id]? = some a → ∃ p q, (∀ p', net.Carries id p' ↔ p' = p) ∧
      Unfolds (declaredIn f.graph.declarations) a.decl q ∧ (net.PreciseAt p →
        q.Denotes domain (factsIn s.facts) (rowsOf net.arena.row (net.outs p))) := by
  obtain ⟨rfl, -, b, ho⟩ := hf.origin
  obtain ⟨net₀, hcompiled⟩ := Network.compile_ok ho.compilable
  have hspec := Network.compile_spec hcompiled
  have hsettles := hs.settles ho.formed husable hrun
  have hlike := hsettles.like ho.formed hcompiled
  refine ⟨hsettles.resting ho.formed, fun decl hlt hactive => ?_, fun id a ha => ?_⟩
  · obtain ⟨id, a₀, ha₀, hdecl⟩ := hspec.exists_node hlt hactive
    obtain ⟨a, ha, hsame, -⟩ := hlike.symm.node ha₀
    exact ⟨id, a, ha, hsame.trans hdecl⟩
  · obtain ⟨a₀, ha₀, hdecl, -⟩ := hlike.node ha
    obtain ⟨d, hd, -⟩ := hspec.candidate ha₀
    obtain ⟨q, hq⟩ := ho.formed.unfolds a.decl (hdecl ▸ lt_of_declaredIn hd)
    obtain ⟨p, hcarries, hdenotes⟩ := carried_denotes ho hs husable hrun ha hq
    exact ⟨p, q, hcarries, hq, fun hp => hdenotes (Or.inr hp)⟩

/-- Every node of the changed coins carries the rows of its query. -/
theorem settled_denotes_coins : ∃ k net,
    Network.settle.run.run Coin.changed.network = (.ok k, net) ∧
      ∀ (id : NodeId) a, net.nodes[id]? = some a → ∃ p q, net.Carries id p ∧
        Unfolds (declaredIn Coin.factory.graph.declarations) a.decl q ∧
        q.Denotes Coin.domain (factsIn Coin.changed.facts)
          (rowsOf net.arena.row (net.outs p)) := by
  obtain ⟨c, d, chosen, hf⟩ := Coin.factory_provided
  obtain ⟨hs, husable⟩ := Coin.changed_reached
  obtain ⟨k, net, hrun⟩ := Coin.changed_ran.2
  obtain ⟨-, -, hdenotes⟩ := settled_denotes hf hs husable hrun
  refine ⟨k, net, hrun, fun id a ha => ?_⟩
  obtain ⟨p, q, hcarries, hq, hrows⟩ := hdenotes id a ha
  exact ⟨p, q, (hcarries p).mpr rfl, hq, hrows ((Coin.sumsWhole hs husable hrun).precise p)⟩

end Session

end ConstraintScoring
