import ConstraintScoring.Proofs.Session.Accounting
import ConstraintScoring.Proofs.Session.Equivalence

/-!
# Sharing and pruning

Streams of several constraints share the nodes of equal steps, and constraints that are not active
have none. Neither can be told from the outside: a constraint has the matches and the total that it
has with any other provider that declares it, be it the only one there.
-/

namespace ConstraintScoring

variable {V S : Type} [Cell V] [Std.TransOrd V] [Score S] [LawfulScore S]

namespace Session

variable {N N' : Naming V} {settings settings' : FactorySettings S} {domain : DomainModel V}
  {written written' : List (Written V S)} {chosen chosen' : List Constraint}
  {f f' : SessionFactory V S} {facts : List (Fact V)} {calls : List (Call V)} {s s' : Session V S}
  {net net' : Network V S} {k k' i i' : Nat} {w w' : Written V S}

/-- Two providers that declare a constraint with the same query, terms and effective weight, among
whatever others, give it the same total and equal matches in sessions that went through the same
calls, as long as the groups that lead to the constraint can be compared; and the score is the sum of
the totals of the active constraints. -/
theorem matches_eq_of_shared (hN : N.Functional) (hN' : N'.Functional)
    (hf : f.ProvidedBy N settings domain written chosen)
    (hf' : f'.ProvidedBy N' settings' domain written' chosen')
    (hi : i ∈ f.graph.activeConstraints) (hi' : i' ∈ f'.graph.activeConstraints)
    (hw : written[i]? = some w) (hw' : written'[i']? = some w') (hquery : w.query = w'.query)
    (himpact : w.terms.impact = w'.terms.impact) (hweigher : w.terms.weigher = w'.terms.weigher)
    (hweight : settings.overrides.effective w.constraint.ref w.weight =
      settings'.overrides.effective w'.constraint.ref w'.weight)
    (halike : w.query.Alike .results) (hweighs : WeighsAlike .results w.terms.weigher)
    (hs : Ran f facts calls s) (hs' : Ran f' facts calls s')
    (hrun : Network.settle.run.run s.network = (.ok k, net))
    (hrun' : Network.settle.run.run s'.network = (.ok k', net'))
    (hcmp : ∀ id id' n n', net.scoreNode? i = some (id, n) → net'.scoreNode? i' = some (id', n') →
      net.ComparableAt net' id id') :
    (∃ total total', net.ledger.totals[i]? = some total ∧ net'.ledger.totals[i']? = some total' ∧
      total.score = total'.score ∧ total.matchCount = total'.matchCount) ∧
    (∃ id id' n n', net.scoreNode? i = some (id, n) ∧ net'.scoreNode? i' = some (id', n') ∧
      Multiset.Rel SameMatch (n.scored net.arena.row) (n'.scored net'.arena.row)) ∧
    Score.level net.score = (net.totals.map fun total => Score.level total.score).sum := by
  obtain ⟨hdomain, -, b, ho⟩ := hf.origin
  obtain ⟨hdomain', -, b', ho'⟩ := hf'.origin
  obtain ⟨hreached, husable, hfacts⟩ := hs.facts_eq ho.formed
  obtain ⟨hreached', husable', hfacts'⟩ := hs'.facts_eq ho'.formed
  have hsettles := hreached.settles ho.formed husable hrun
  have hsettles' := hreached'.settles ho'.formed husable' hrun'
  obtain ⟨id, n, a, v, total, hn, rfl, hnode, ha, hv, hnimpact, hnweigher, hnweight, hunfolds, htotal,
    -⟩ := hsettles.scoreNode ho hi
  obtain ⟨id', n', a', v', total', hn', rfl, hnode', ha', hv', hnimpact', hnweigher', hnweight',
    hunfolds', htotal', -⟩ := hsettles'.scoreNode ho' hi'
  obtain rfl := Option.some.inj (hv.symm.trans hw)
  obtain rfl := Option.some.inj (hv'.symm.trans hw')
  have hsame : n.impactOf = n'.impactOf := ScoreNode.impactOf_congr
    (hnimpact.trans (himpact.trans hnimpact'.symm)) (hnweight.trans (hweight.trans hnweight'.symm))
    (hnweigher.trans (hweigher.trans hnweigher'.symm))
  have hmatches := hsettles.matches_agree hsettles' ho.formed ho'.formed
    (hdomain.trans hdomain'.symm) (hcmp id id' n n' hnode hnode')
    (fun key => by rw [hfacts, hfacts']) ha ha' (hunfolds hN) (hquery ▸ hunfolds' hN') hn hn' halike
    (hnweigher ▸ hweighs) hsame
  have hbags : net.bags n.constraint = net'.bags n'.constraint := by
    rw [(hsettles.scoring ho).bags_eq hn, (hsettles'.scoring ho').bags_eq hn']
    exact bag_eq_of_scored hmatches
  refine ⟨⟨total, total', htotal, htotal', ?_⟩, ⟨id, id', n, n', hnode, hnode', hmatches⟩, ?_⟩
  · exact (hsettles.balances ho.formed).total_eq (hsettles'.balances ho'.formed) htotal htotal' hbags
  · exact hsettles.score_eq ho

/-- The worths of coins have one total, whether the pairs are scored as well or not. -/
theorem matches_eq_of_shared_coins : ∃ k net k' net' total total',
    Network.settle.run.run Coin.changed.network = (.ok k, net) ∧
      Network.settle.run.run Coin.worthChanged.network = (.ok k', net') ∧
      net.ledger.totals[1]? = some total ∧ net'.ledger.totals[0]? = some total' ∧
      total.score = total'.score ∧ total.matchCount = total'.matchCount := by
  obtain ⟨c, d, chosen, hf⟩ := Coin.factory_provided
  obtain ⟨d', chosen', hf'⟩ := Coin.worthFactory_provided
  obtain ⟨hs, husable⟩ := Coin.changed_reached
  obtain ⟨k, net, hrun⟩ := Coin.changed_ran.2
  obtain ⟨k', net', hrun', hsums'⟩ := Coin.worthChanged_ran.2
  obtain ⟨⟨total, total', htotal, htotal', hsame⟩, -, -⟩ := matches_eq_of_shared
    Coin.naming_functional Coin.naming_functional hf hf'
    (by decide +kernel : 1 ∈ Coin.factory.graph.activeConstraints)
    (by decide +kernel : 0 ∈ Coin.worthFactory.graph.activeConstraints) rfl rfl rfl rfl rfl rfl
    (Coin.worths_alike _) (fun _ => Coin.worthTerms_alike _)
    Coin.changed_ran.1 Coin.worthChanged_ran.1 hrun hrun' fun id id' _ _ _ _ =>
      (Coin.sumsWhole hs husable hrun).comparableAt hsums' id id'
  exact ⟨k, net, k', net', total, total', hrun, hrun', htotal, htotal', hsame⟩

end Session

end ConstraintScoring
