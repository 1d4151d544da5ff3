import ConstraintScoring.Proofs.Query.Pairs
import ConstraintScoring.Proofs.Session.Relational

/-!
# Streams of unique pairs in a session

Whatever was inserted, updated and retracted, a settled session has one row for each two assigned
facts that a stream of unique pairs is to find, with the facts as they are now.
-/

namespace ConstraintScoring

variable {V S : Type} [Cell V] [Std.TransOrd V]

section Facts

variable {facts : Table (FactKey V) V} {x y : Fact V}

/-- Facts with one key are one fact. -/
theorem eq_of_factsIn (hd : facts.Distinct) (hx : x ∈ factsIn facts) (hy : y ∈ factsIn facts)
    (hkeys : (x.key == y.key) = true) : x = y := by
  obtain ⟨e, he, rfl⟩ := List.mem_map.mp (Multiset.mem_coe.mp hx)
  obtain ⟨e', he', rfl⟩ := List.mem_map.mp (Multiset.mem_coe.mp hy)
  have hsymm : Std.Symm fun e e' : FactKey V × V => (e.1 == e'.1) = false :=
    ⟨fun _ _ h => BEq.symm_false h⟩
  by_contra hne
  have hdiffer := List.Pairwise.forall hd he he' fun heq => hne (by rw [heq])
  exact absurd hkeys (Bool.eq_false_iff.mp hdiffer)

theorem factsIn_nodup (hd : facts.Distinct) : (factsIn facts).Nodup := by
  rw [factsIn, Multiset.coe_nodup]
  refine List.pairwise_map.mpr (List.Pairwise.imp (fun {e e'} hkeys heq => ?_) hd)
  have hkey : e.1 = e'.1 := congrArg Fact.key heq
  rw [hkey, BEq.rfl] at hkeys
  cases hkeys

end Facts

namespace Session

variable [Score S] [LawfulScore S] {N : Naming V} {settings : FactorySettings S}
  {domain : DomainModel V} {written : List (Written V S)} {chosen : List Constraint}
  {f : SessionFactory V S} {s : Session V S} {net : Network V S} {k : Nat}

/-- In a settled session a stream of unique pairs has one row for each of them, whatever node carries
its rows: no fact is paired with itself, no two facts both ways round, and two facts that the joiner
takes both ways are paired one way round, as long as facts go by their planning ids. -/
theorem settled_unique_pairs (hf : f.ProvidedBy N settings domain written chosen)
    (hs : Reached f s) (husable : s.poisoned = false)
    (hrun : Network.settle.run.run s.network = (.ok k, net)) {type : String} {c : FactClass V}
    (hc : domain.class? type = some c) (joiner : Joiner V) :
    (N.Functional → ∀ i ∈ f.graph.activeConstraints, ∀ w, written[i]? = some w →
      w.query = StreamCall.pairQuery domain type joiner → ∃ (id : NodeId) (a : NetworkNode V S),
        (∃ n, net.kindAt id = .score n ∧ n.constraint = i) ∧ net.nodes[id]? = some a ∧
          Unfolds (declaredIn f.graph.declarations) a.decl
            (StreamCall.pairQuery domain type joiner)) ∧
    ∀ (id : NodeId) a, net.nodes[id]? = some a →
      Unfolds (declaredIn f.graph.declarations) a.decl (StreamCall.pairQuery domain type joiner) →
      ∃ p pairs, (∀ p', net.Carries id p' ↔ p' = p) ∧
        UniquePairs c type joiner (factsIn s.facts) pairs ∧
        rowsOf net.arena.row (net.outs p) = pairs.map pairRow ∧
        (∀ x, (x, x) ∉ pairs) ∧ (∀ x y, (x, y) ∈ pairs → (y, x) ∉ pairs) ∧
        ((∀ x ∈ factsIn s.facts, x.type = type → c.Knows x) →
          ∀ x y, c.Shows type (factsIn s.facts) x → c.Shows type (factsIn s.facts) y → x ≠ y →
            joiner.Holds [x.cell] [y.cell] → joiner.Holds [y.cell] [x.cell] →
            (x, y) ∈ pairs ∨ (y, x) ∈ pairs) := by
  obtain ⟨rfl, -, b, ho⟩ := hf.origin
  have hsettles := hs.settles ho.formed husable hrun
  have hdistinct := hsettles.distinct ho.formed
  refine ⟨fun hN i hi w hw hquery => ?_, fun id a ha hq => ?_⟩
  · obtain ⟨id, n, a, w', -, hn, hconstraint, -, ha, hw', -, -, -, hunfolds, -⟩ :=
      hsettles.scoreNode ho hi
    obtain rfl := Option.some.inj (hw.symm.trans hw')
    exact ⟨id, a, ⟨n, hn, hconstraint⟩, ha, hquery ▸ hunfolds hN⟩
  · obtain ⟨p, hcarries, hdenotes⟩ := carried_denotes ho hs husable hrun ha hq
    have hdenotes := hdenotes (Or.inl (StreamCall.pairQuery_groupless hc))
    obtain ⟨pairs, hpairs, hrows⟩ := StreamCall.pairs_denoted hc (factsIn_nodup hdistinct) hdenotes
    refine ⟨p, pairs, hcarries, hpairs, hrows, hpairs.irrefl, fun x y => hpairs.asymm,
      fun hknown x y hx hy hne hxy hyx => hpairs.mem_or_mem hx hy ?_ hxy hyx⟩
    rw [Bool.eq_false_iff]
    intro hsame
    refine hne (eq_of_factsIn hdistinct hx.mem hy.mem (factKey_beq_iff.mpr ⟨?_, ?_⟩))
    · exact hx.type.trans hy.type.symm
    · exact Cell.same_trans (hknown x hx.mem hx.type)
        (Cell.same_trans hsame (Cell.same_symm (hknown y hy.mem hy.type)))

end Session

namespace Coin

/-- Coins that show heads are assigned, and their worth is their planning id. -/
def tossed : DomainModel Coin := DomainModel.empty.withClass ⟨"coin", some fun c => .ok c.heads, id⟩

/-- The planning id is the only function that is known by a name. -/
def tossNaming : Naming Coin where
  test _ _ := False
  cell name run := name = "planning id of coin" ∧
    run = ConstraintFactory.planningIdOf ⟨"coin", some fun c => .ok c.heads, id⟩
  items _ _ := False
  collector _ _ _ := False

theorem tossNaming_functional : tossNaming.Functional :=
  ⟨fun _ _ _ h => h.elim, fun _ _ _ h h' => h.2.trans h'.2.symm, fun _ _ _ h => h.elim,
    fun _ _ _ _ h => h.elim⟩

def tossProvider : Declaring Coin SimpleScore (List Constraint) := do
  let both ← ConstraintFactory.forEachUniquePair "coin" .all
  let c ← ConstraintFactory.constraint both ⟨"", "pairs"⟩ SimpleScore.one pairTerms
  return [c]

theorem tossProvider_provides : Declaring.Provides tossNaming tossed [] [] tossProvider
    fun _ _ written =>
      ∃ c, written = [⟨c, StreamCall.pairQuery tossed "coin" .all, SimpleScore.one, pairTerms⟩] := by
  refine (Declaring.Provides.stream (.forEachUniquePair "coin" .all) (by simp [StreamCall.operands])
    ?_ trivial).bind ?_
  · intro c hc
    obtain rfl := Option.some.inj hc
    exact ⟨trivial, fun name hname => ⟨(Option.some.inj hname).symm, rfl⟩,
      fun name hname => ⟨(Option.some.inj hname).symm, rfl⟩⟩
  rintro both _ _ ⟨rfl, rfl⟩
  refine (Declaring.Provides.constraint (s := (both, StreamCall.pairQuery tossed "coin" .all))
    (.head _) _ _ _).bind ?_
  rintro c _ _ ⟨rfl, rfl⟩
  exact .pure ⟨c, rfl⟩

def tossFactory : SessionFactory Coin SimpleScore :=
  (SessionFactory.build .default tossed tossProvider).toOption.get (by decide +kernel)

theorem tossFactory_provided : ∃ c chosen, tossFactory.ProvidedBy tossNaming .default tossed
    [⟨c, StreamCall.pairQuery tossed "coin" .all, SimpleScore.one, pairTerms⟩] chosen := by
  obtain ⟨written, chosen, ⟨c, rfl⟩, hf⟩ :=
    SessionFactory.ProvidedBy.of_build tossProvider_provides (Outcome.eq_ok_get _)
  exact ⟨c, chosen, hf⟩

def tossCompiled : Network Coin SimpleScore :=
  (Network.compile tossFactory.graph tossFactory.domain).toOption.get (by decide +kernel)

/-- The network of the factory, with the order of its nodes written out. -/
def tossNetwork : Network Coin SimpleScore := { tossCompiled with order := [0, 1, 2, 3, 4, 5] }

theorem tossNetwork_compiled :
    Network.compile tossFactory.graph tossFactory.domain = .ok tossNetwork := by
  have hranks : tossCompiled.nodes.toList.map (·.rank) = [0, 1, 1, 2, 3, 4] := by decide +kernel
  exact Network.compile_ordered (Outcome.eq_ok_get _) hranks (by decide) (by decide)

def toss (worth : Nat) (heads : Bool) : Fact Coin := ⟨"coin", ⟨worth, true⟩, ⟨worth, heads⟩⟩

/-- After a first score one coin is turned, one is taken away and a new one is added. -/
def tosses : List (Session.Call Coin) :=
  [.calculateScore, .update (toss 7 true), .retract (toss 9 true), .insert (toss 3 true)]

def tossPurse : List (Fact Coin) := [toss 5 true, toss 7 false, toss 9 true]

def tossSession : Session Coin SimpleScore := .called tossFactory tossNetwork tossPurse tosses

theorem tossSession_ran : Session.Ran tossFactory tossPurse tosses tossSession ∧
    ∃ n net, Network.settle.run.run tossSession.network = (.ok n, net) :=
  Session.called_ran tossNetwork_compiled
    (by decide +kernel : Session.succeeds tossFactory tossNetwork tossPurse tosses)

theorem settled_unique_pairs_tossed : ∃ k net p pairs,
    Network.settle.run.run tossSession.network = (.ok k, net) ∧
      UniquePairs ⟨"coin", some fun c => .ok c.heads, id⟩ "coin" .all (factsIn tossSession.facts)
        pairs ∧
      rowsOf net.arena.row (net.outs p) = pairs.map pairRow ∧
      (toss 5 true, toss 7 true) ∈ pairs := by
  obtain ⟨c, chosen, hf⟩ := tossFactory_provided
  obtain ⟨-, -, b, ho⟩ := hf.origin
  obtain ⟨hreached, husable, hfacts⟩ := tossSession_ran.1.facts_eq ho.formed
  obtain ⟨k, net, hrun⟩ := tossSession_ran.2
  have hclass : tossed.class? "coin" = some ⟨"coin", some fun c => .ok c.heads, id⟩ := rfl
  obtain ⟨hscored, hpairs⟩ :=
    Session.settled_unique_pairs hf hreached husable hrun hclass .all
  have hactive : 0 ∈ tossFactory.graph.activeConstraints := by decide +kernel
  obtain ⟨id, a, -, ha, hq⟩ := hscored tossNaming_functional 0 hactive _ rfl rfl
  obtain ⟨p, pairs, -, hunique, hrows, -⟩ := hpairs id a ha hq
  have hcurrent : factsIn tossSession.facts = [toss 5 true, toss 7 true, toss 3 true] := by
    rw [hfacts]
    rfl
  refine ⟨k, net, p, pairs, hrun, hunique, hrows, (hunique.mem_iff _ _).mpr ?_⟩
  rw [hcurrent]
  exact ⟨⟨by simp, rfl, rfl⟩, ⟨by simp, rfl, rfl⟩, by unfold FactClass.Precedes; decide, trivial⟩

end Coin

end ConstraintScoring
