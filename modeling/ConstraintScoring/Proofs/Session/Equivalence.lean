import ConstraintScoring.Proofs.Session.Providers

/-!
# Scoring by changes and scoring from scratch

A session that went through any calls comes to the score of a new session that holds the same facts,
and so does the network that full assertion builds anew. This takes functions that treat equal rows
alike. Sums of decimals are compared between the two networks: they must be the sums of what was
given, and where they are equal the means must be, too. Sums of whole numbers and their means always
pass.
-/

namespace ConstraintScoring

variable {V S : Type} [Cell V] [Score S]

/-- All functions of a graph treat equal rows alike. -/
structure DeclarationGraph.Alike (k : Likeness) (g : DeclarationGraph V S) : Prop where
  operation : ∀ id c, declaredIn g.declarations id = some c → c.operation.Alike k
  weigher : ∀ c ∈ g.constraints, WeighsAlike k c.weigher

omit [Score S] in
theorem Query.alike_spreads (k : Likeness) :
    Query.Spreads (V := V) (Query.Alike k) (Operation.Alike k) := by
  intro op qs q hq h
  unfold Operation.query at hq
  split at hq <;> cases hq
  case h_1 => exact ⟨trivial, nofun⟩
  case h_2 | h_3 | h_4 => exact ⟨trivial, List.forall_mem_singleton.mpr h⟩
  case h_5 | h_6 | h_7 => exact ⟨h.1, List.forall_mem_singleton.mpr h.2⟩
  case h_8 keys collectors q =>
    refine ⟨⟨h.1.1, fun c hc => ?_⟩, List.forall_mem_singleton.mpr h.2⟩
    have hunnamed := h.1.2 _ (List.mem_map_of_mem hc)
    exact ⟨hunnamed.contribution, hunnamed.present⟩
  case h_9 => exact ⟨trivial, List.forall_mem_cons.mpr ⟨h.1, List.forall_mem_singleton.mpr h.2⟩⟩
  case h_10 | h_11 =>
    exact ⟨h.1, List.forall_mem_cons.mpr ⟨h.2.1, List.forall_mem_singleton.mpr h.2.2⟩⟩

/-- If nothing was declared in vain, a graph for queries and weighers that treat equal rows alike does
so as well. -/
theorem SessionFactory.Origin.alike {N : Naming V} {settings : FactorySettings S}
    {written : List (Written V S)} {chosen : List Constraint} {f : SessionFactory V S}
    {b : GraphBuilder V S} {k : Likeness} (h : Origin N settings written chosen f b)
    (hN : N.Functional) (hactive : ∀ id < f.graph.size, f.graph.isActive id)
    (halike : ∀ w ∈ written, w.query.Alike k ∧ WeighsAlike k w.terms.weigher) : f.graph.Alike k where
  operation _ _ := h.spreads hN hactive (Query.alike_spreads k) fun w hw => (halike w hw).1
  weigher c hc := by
    obtain ⟨w, hw, hweigher⟩ := h.weigher hc
    exact hweigher ▸ (halike w hw).2

variable [Std.TransOrd V] [LawfulScore S]

namespace SessionFactory.Settles

variable {N : Naming V} {settings : FactorySettings S} {written : List (Written V S)}
  {chosen : List Constraint} {f f' : SessionFactory V S} {b : GraphBuilder V S}
  {facts facts' : Table (FactKey V) V} {net net' : Network V S} {id id' : NodeId}
  {a a' : NetworkNode V S} {q : Query V} {n n' : ScoreNode V S}

/-- Two settled networks with the same facts have equal matches for equal queries. -/
theorem matches_agree (h : f.Settles facts net) (h' : f'.Settles facts' net')
    (hf : Formed f.graph.declarations) (hf' : Formed f'.graph.declarations)
    (hdomain : f.domain = f'.domain) (hcmp : net.ComparableAt net' id id')
    (hfacts : ∀ k, facts.get? k = facts'.get? k) (ha : net.nodes[id]? = some a)
    (ha' : net'.nodes[id']? = some a') (hq : Unfolds (declaredIn f.graph.declarations) a.decl q)
    (hq' : Unfolds (declaredIn f'.graph.declarations) a'.decl q)
    (hn : net.kindAt id = .score n) (hn' : net'.kindAt id' = .score n')
    (halike : q.Alike .results) (hw : WeighsAlike .results n.weigher)
    (himpact : n.impactOf = n'.impactOf) :
    Multiset.Rel SameMatch (n.scored net.arena.row) (n'.scored net'.arena.row) := by
  have hscores' := h'.scored hf' ha' hq' hn'
  rw [← hdomain] at hscores'
  exact (h.scored hf ha hq hn).agree hscores' halike
    (factsIn_same (h.distinct hf) (h'.distinct hf') hfacts) (hcmp.agree.under .left) hw himpact

/-- Settled networks of one factory with the same facts have recorded the same impacts. -/
theorem bags_eq (h : f.Settles facts net) (h' : f.Settles facts' net')
    (ho : Origin N settings written chosen f b) (halike : f.graph.Alike .results)
    (hcmp : net.Comparable net') (hfacts : ∀ k, facts.get? k = facts'.get? k) :
    net.bags = net'.bags := by
  obtain ⟨net₀, hcompiled⟩ := Network.compile_ok ho.compilable
  have hspec := Network.compile_spec hcompiled
  have hlike := (h.like ho.formed hcompiled).symm
  have hlike' := h'.like ho.formed hcompiled
  have hscoring := h.scoring ho
  have hscoring' := h'.scoring ho
  funext i
  by_cases hi : i ∈ f.graph.activeConstraints
  · obtain ⟨id, n, hn, rfl⟩ := hscoring.node i hi
    obtain ⟨n₀, hn₀, hsame⟩ := hlike.symm.score hn
    obtain ⟨n', hn', hsame'⟩ := hlike'.symm.score hn₀
    obtain ⟨a₀, c, ha₀, -, hc, hend, -, -, hweigher⟩ :=
      ho.scoreNode hspec hn₀
    obtain ⟨a, ha, hdecl, -⟩ := hlike.node ha₀
    obtain ⟨a', ha', hdecl', -⟩ := hlike'.symm.node ha₀
    obtain ⟨p, w, hp⟩ := ho.scoreDecl hc
    obtain ⟨q, hq⟩ := ho.formed.unfolds c.scoreDecl (lt_of_declaredIn hp)
    rw [hscoring.bags_eq hn, hsame.constraint, hsame'.constraint, hscoring'.bags_eq hn']
    refine bag_eq_of_scored (matches_agree h h' ho.formed ho.formed rfl
      (hcmp.at (hspec.wired ho.formed) hlike.symm hlike' id) hfacts ha ha' (q := q) ?_ ?_ hn hn'
      (hq.alike halike.operation) ?_ ?_)
    · rwa [hdecl, hend]
    · rwa [hdecl', hend]
    · rw [hsame.weigher, hweigher]
      exact halike.weigher c (Array.mem_of_getElem? hc)
    · exact ScoreNode.impactOf_congr (hsame.impact.trans hsame'.impact)
        (hsame.weight.trans hsame'.weight) (hsame.weigher.trans hsame'.weigher)
  · rw [hscoring.bags_eq_zero hi, hscoring'.bags_eq_zero hi]

/-- Settled networks of one factory with the same facts have the same score and totals. -/
theorem ledger_eq (h : f.Settles facts net) (h' : f.Settles facts' net')
    (ho : Origin N settings written chosen f b) (halike : f.graph.Alike .results)
    (hcmp : net.Comparable net') (hfacts : ∀ k, facts.get? k = facts'.get? k) :
    net.ledger = net'.ledger := by
  obtain ⟨net₀, hcompiled⟩ := Network.compile_ok ho.compilable
  have hbags := h.bags_eq h' ho halike hcmp hfacts
  have hbalances := h.balances ho.formed
  have hbalances' := h'.balances ho.formed
  have hrefs : net.ledger.refs = net'.ledger.refs :=
    (h.like ho.formed hcompiled).refs.trans (h'.like ho.formed hcompiled).refs.symm
  have hscore : net.ledger.score = net'.ledger.score := Score.level_inj <| by
    rw [hbalances.score, hbalances'.score, hbags, Ledger.size_of_refs hrefs]
  have htotals : net.ledger.totals = net'.ledger.totals := by
    refine Array.ext_getElem? fun i => ?_
    have href := congrArg (·[i]?) hrefs
    simp only [Ledger.refs, Array.getElem?_map] at href
    cases hi : net.ledger.totals[i]? with
    | none =>
        rw [hi] at href
        exact (Option.map_eq_none_iff.mp href.symm).symm
    | some total =>
        rw [hi] at href
        obtain ⟨total', htotal', hsame⟩ := Option.map_eq_some_iff.mp href.symm
        obtain ⟨hscore, hcount⟩ := hbalances.total_eq hbalances' hi htotal' (congrFun hbags i)
        rw [htotal']
        obtain ⟨ref, score, count⟩ := total
        obtain ⟨ref', score', count'⟩ := total'
        simp only at hsame hscore hcount
        rw [hsame, hscore, hcount]
  generalize net.ledger = l at hscore htotals
  generalize net'.ledger = l' at hscore htotals
  obtain ⟨score, totals⟩ := l
  obtain ⟨score', totals'⟩ := l'
  simp only at hscore htotals
  rw [hscore, htotals]

end SessionFactory.Settles

theorem Coin.factory_alike (k : Likeness) : factory.graph.Alike k := by
  obtain ⟨c, d, chosen, hf⟩ := factory_provided
  obtain ⟨-, -, b, ho⟩ := hf.origin
  refine ho.alike naming_functional (by decide +kernel) ?_
  rintro w (_ | ⟨_, _ | ⟨_, ⟨⟩⟩⟩)
  · refine ⟨pairs_alike k, fun weigh hnone => ?_⟩
    cases hnone
  · exact ⟨worths_alike k, fun weigh => worthTerms_alike k⟩

namespace Session

variable {N : Naming V} {settings : FactorySettings S} {domain : DomainModel V}
  {written : List (Written V S)} {chosen : List Constraint} {f : SessionFactory V S}
  {s s' : Session V S}

/-- A session comes to the score and the totals of a new session with the same facts, in whatever
order they are inserted, and full assertion never finds the score corrupt. -/
theorem score_eq_of_facts (hf : f.ProvidedBy N settings domain written chosen)
    (halike : f.graph.Alike .results) (hs : Reached f s) :
    (∀ fs tracksMatches s' t t' score score', fs.Perm s.currentFacts →
      f.buildSession fs tracksMatches = .ok s' →
      calculateScore.run.run s = (.ok score, t) → calculateScore.run.run s' = (.ok score', t') →
      t.network.Comparable t'.network → score = score' ∧ t.network.totals = t'.network.totals) ∧
    ∀ e t, calculateScore.run.run s = (.error e, t) →
      (∀ net, t.Rebuilds net → t.network.Comparable net) → ∀ a b, e ≠ .scoreCorruption a b := by
  obtain ⟨-, -, b, ho⟩ := hf.origin
  obtain ⟨net₀, hcompiled⟩ := Network.compile_ok ho.compilable
  constructor
  · intro fs tracksMatches s' t t' score score' hfs hbuild hcall hcall' hcmp
    have hs' : Reached f s' := .built hbuild
    obtain ⟨k, hrun, rfl, -⟩ := score_of_run hcall
    obtain ⟨k', hrun', rfl, -⟩ := score_of_run hcall'
    have hsettles := hs.settles ho.formed (usable_of_score hcall) hrun
    have hsettles' := hs'.settles ho.formed (usable_of_score hcall') hrun'
    have hfacts := built_facts hbuild (hsettles.distinct ho.formed) hfs
    have hledger := hsettles.ledger_eq hsettles' ho halike hcmp hfacts
    unfold Network.score Network.totals
    rw [hledger, hsettles.graph_eq ho.formed, hsettles'.graph_eq ho.formed]
    exact ⟨rfl, rfl⟩
  · rintro e t hcall hrebuilt x y rfl
    have husable := usable_of_corruption hcall
    obtain ⟨fresh, hfresh⟩ := hs.compiled ho.formed husable
    obtain ⟨k, net, net', hrun, rfl, hnet', hsame⟩ := corruption_of_run hfresh hcall
    have ht : Reached f { s with network := net } := by
      have hafter := hs.call .calculateScore
      have hperform : s.after .calculateScore = { s with network := net } := by
        unfold after Call.perform
        rw [Outcome.run_bind, hcall]
      rwa [hperform] at hafter
    have hsettles := hs.settles ho.formed husable hrun
    have hsettles' := ht.rebuilds_settles ho.formed husable hnet'
    have hledger := hsettles.ledger_eq hsettles' ho halike (hrebuilt net' hnet') fun _ => rfl
    unfold Network.score Score.same at hsame
    rw [hledger, beq_self_eq_true] at hsame
    cases hsame

/-- Coins that were changed between two scores come to the score of the same coins anew. -/
theorem score_eq_of_facts_coins : ∃ score t t',
    calculateScore.run.run Coin.changed = (.ok score, t) ∧
      calculateScore.run.run Coin.anew = (.ok score, t') ∧
      t.network.totals = t'.network.totals := by
  obtain ⟨c, d, chosen, hf⟩ := Coin.factory_provided
  have hruns : ((insertAll Coin.changed.currentFacts.reverse).run.run
        (blank Coin.factory Coin.network true)).1.toOption.isSome ∧
      (calculateScore.run.run Coin.changed).1.toOption.isSome ∧
      (calculateScore.run.run Coin.anew).1.toOption.isSome := by
    decide +kernel
  obtain ⟨hbuilds, hscored, hscored'⟩ := hruns
  have hbuilt : Coin.factory.buildSession Coin.changed.currentFacts.reverse true = .ok Coin.anew :=
    buildSession_eq Coin.network_compiled hbuilds
  obtain ⟨score, t, hcall⟩ := Outcome.run_eq_ok hscored
  obtain ⟨score', t', hcall'⟩ := Outcome.run_eq_ok hscored'
  obtain ⟨k, hrun, ht, -⟩ := score_of_run hcall
  obtain ⟨k', hrun', ht', -⟩ := score_of_run hcall'
  have hchanged := Coin.changed_reached.1
  have hsums := Coin.sumsWhole hchanged (usable_of_score hcall) hrun
  have hsums' := Coin.sumsWhole (.built hbuilt) (usable_of_score hcall') hrun'
  obtain ⟨rfl, htotals⟩ := (score_eq_of_facts hf (Coin.factory_alike _) hchanged).1 _ _ _ _ _ _ _
    (List.reverse_perm _) hbuilt hcall hcall' (hsums.comparable hsums')
  exact ⟨score, t, t', hcall, hcall', htotals⟩

end Session

end ConstraintScoring
