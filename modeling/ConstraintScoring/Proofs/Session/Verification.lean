import ConstraintScoring.Proofs.Network.Retracing
import ConstraintScoring.Proofs.Session.Equivalence

/-!
# What verification evaluates

Full assertion builds a new network for the facts of a session that has settled. All that the new
network evaluates on its way was evaluated in the network of the session, on equal rows. So functions
that treat equal rows alike do not fail, and only a number that leaves its range can stop it.
-/

namespace ConstraintScoring

variable {V S : Type} [Cell V] [Std.TransOrd V] [Score S] [LawfulScore S]
  {f : SessionFactory V S} {net₀ net : Network V S} {m m' : Moment V S}

omit [Std.TransOrd V] [LawfulScore S] in
/-- A settled network of a factory is that of an idle moment. -/
theorem SessionFactory.Settles.moment {facts : Table (FactKey V) V} (h : f.Settles facts net)
    (hcompiled : Network.compile f.graph f.domain = .ok net₀) :
    ∃ m, Moment.Reachable net₀ m ∧ m.Idle ∧ m.net = net ∧ m.facts = facts := by
  obtain ⟨hc, hm, hidle, hfacts⟩ := h
  obtain rfl := Except.ok.inj (hcompiled.symm.trans hc)
  exact ⟨_, hm, hidle, rfl, hfacts⟩

/-- Networks of one factory retrace those that have settled with the same facts. -/
theorem SessionFactory.retraces (hf : Formed f.graph.declarations)
    (halike : f.graph.Alike .outcomes) (hcompiled : Network.compile f.graph f.domain = .ok net₀)
    (hm : Moment.Reachable net₀ m) (hm' : Moment.Reachable net₀ m') (hidle : m'.Idle)
    (hfacts : ∀ k, m.facts.get? k = m'.facts.get? k) :
    m.Retraces f.graph f.domain net₀ (Network.widthAt f.graph net₀) m' := by
  have hspec := Network.compile_spec hcompiled
  have hw := hspec.wired hf
  have hsound := hm.sound hw hspec.unused
  have hsound' := hm'.sound hw hspec.unused
  exact ⟨hspec, hf, hw, halike.operation, halike.weigher, hsound, hsound', hidle,
    factsIn_same hsound.facts_distinct hsound'.facts_distinct hfacts⟩

namespace Coin

/-- Two coins of one worth; others are not expected. -/
def matching : RowFunction Coin Bool :=
  ⟨none, fun row =>
    match row.map worth with
    | [a, b] => if a = b then .ok true else .error (.raised "worths differ")
    | _ => .error (.raised "no pair")⟩

def matched : Joiner Coin := .and (.equal worthOf worthOf) (.filtering matching)

/-- The mean of all coins. -/
def middle : Query Coin := .group [] [mean.unnamed] coins

/-- Every coin that is worth the mean of all coins, which the condition expects. -/
def matchedPairs : Query Coin := .join matched.compile coins middle

def matchedProvider : Declaring Coin SimpleScore (List Constraint) := do
  let all ← ConstraintFactory.forEach "coin"
  let one ← ConstraintFactory.group all [.collector mean]
  let both ← ConstraintFactory.join all one matched
  let c ← ConstraintFactory.constraint both ⟨"", "pairs"⟩ SimpleScore.one pairTerms
  return [c]

theorem matchedProvider_provides : Declaring.Provides naming domain [] [] matchedProvider
    fun _ _ written => ∃ c, written = [⟨c, matchedPairs, SimpleScore.one, pairTerms⟩] := by
  refine (Declaring.Provides.stream (.forEach "coin") (by simp [StreamCall.operands]) trivial
    trivial).bind ?_
  rintro all _ _ ⟨rfl, rfl⟩
  refine (Declaring.Provides.stream (.group (all, coins) [.collector mean])
    (by simp [StreamCall.operands, StreamCall.query, coins])
    (List.forall_mem_singleton.mpr mean_respects) trivial).bind ?_
  rintro one _ _ ⟨rfl, rfl⟩
  refine (Declaring.Provides.stream (.join (all, coins) (one, middle) matched) ?_
    ⟨⟨respects, respects⟩, respects⟩ trivial).bind ?_
  · rintro s (_ | ⟨_, _ | ⟨_, ⟨⟩⟩⟩)
    · exact .tail _ (.head _)
    · exact .head _
  rintro both _ _ ⟨rfl, rfl⟩
  refine (Declaring.Provides.constraint (s := (both, matchedPairs)) (.head _) _ _ _).bind ?_
  rintro c _ _ ⟨rfl, rfl⟩
  exact .pure ⟨c, rfl⟩

/-- Every score is verified. -/
def asserting : FactorySettings SimpleScore := { FactorySettings.default with mode := .fullAssert }

def matchedFactory : SessionFactory Coin SimpleScore :=
  (SessionFactory.build asserting domain matchedProvider).toOption.get (by decide +kernel)

theorem matchedFactory_provided : ∃ c chosen, matchedFactory.ProvidedBy naming asserting domain
    [⟨c, matchedPairs, SimpleScore.one, pairTerms⟩] chosen := by
  obtain ⟨written, chosen, ⟨c, rfl⟩, hf⟩ :=
    SessionFactory.ProvidedBy.of_build matchedProvider_provides (Outcome.eq_ok_get _)
  exact ⟨c, chosen, hf⟩

theorem matching_alike (k : Likeness) : Alike k Eq matching.run := by
  intro row row' h
  unfold matching
  simp only
  rw [worths_eq h]
  split
  · split
    · exact Likeness.agree_ok rfl
    · exact Likeness.agree_error _ _
  · exact Likeness.agree_error _ _

theorem matched_alike (k : Likeness) : matched.compile.Alike k where
  left := List.forall_mem_singleton.mpr (worthOf_alike k)
  right := List.forall_mem_singleton.mpr (worthOf_alike k)
  conditions := List.forall_mem_singleton.mpr fun _ _ _ _ hl hr =>
    matching_alike k _ _ (Cell.sameAll_append hl hr)

theorem matchedPairs_alike (k : Likeness) : matchedPairs.Alike k := by
  have hmean : ∀ c ∈ [mean.unnamed], c.Alike k := List.forall_mem_singleton.mpr (mean_alike k)
  exact ⟨matched_alike k, trivial, ⟨fun g hg => (List.not_mem_nil hg).elim, hmean⟩, trivial⟩

theorem matchedFactory_alike (k : Likeness) : matchedFactory.graph.Alike k := by
  obtain ⟨c, chosen, hf⟩ := matchedFactory_provided
  obtain ⟨-, -, b, ho⟩ := hf.origin
  refine ho.alike naming_functional (by decide +kernel) (List.forall_mem_singleton.mpr ?_)
  refine ⟨matchedPairs_alike k, fun weigh hnone => ?_⟩
  cases hnone

def matchedCompiled : Network Coin SimpleScore :=
  (Network.compile matchedFactory.graph matchedFactory.domain).toOption.get (by decide +kernel)

/-- The network of the factory, with the order of its nodes written out. -/
def matchedNetwork : Network Coin SimpleScore :=
  { matchedCompiled with order := [0, 1, 3, 2, 4, 5, 6, 7] }

theorem matchedNetwork_compiled :
    Network.compile matchedFactory.graph matchedFactory.domain = .ok matchedNetwork := by
  have hranks : matchedCompiled.nodes.toList.map (·.rank) = [0, 1, 2, 1, 3, 4, 5, 6] := by
    decide +kernel
  exact Network.compile_ordered (Outcome.eq_ok_get _) hranks (by decide) (by decide)

theorem matchedFactory_givesWhole : matchedFactory.graph.GivesWhole := by
  obtain ⟨c, chosen, hf⟩ := matchedFactory_provided
  obtain ⟨-, -, b, ho⟩ := hf.origin
  exact ho.givesWhole naming_functional (by decide +kernel)
    (List.forall_mem_singleton.mpr ⟨trivial, List.forall_mem_singleton.mpr mean_givesWhole, trivial⟩)

def matchedPurse : List (Fact Coin) := [coin 1 5, coin 2 5]

/-- After it has settled for the first time, the mean goes from 5 to 19 / 3, with other coins. -/
def matchedCalls : List (Session.Call Coin) :=
  [.constraintTotals, .update (coin 2 8), .insert (coin 3 6)]

def matchedSession : Session Coin SimpleScore :=
  .called matchedFactory matchedNetwork matchedPurse matchedCalls

theorem matchedSession_ran : Session.Ran matchedFactory matchedPurse matchedCalls matchedSession ∧
    ∃ n net, Network.settle.run.run matchedSession.network = (.ok n, net) :=
  Session.called_ran matchedNetwork_compiled (by decide +kernel)

end Coin

namespace Session

variable {N : Naming V} {settings : FactorySettings S} {domain : DomainModel V}
  {written : List (Written V S)} {chosen : List Constraint} {s : Session V S}
  {b : GraphBuilder V S} {fault : NetworkFault} {k : Nat}

/-- The network that is built anew for the facts of the session is stopped by the fault and left as
`net`. -/
def RebuildStops (s : Session V S) (fault : NetworkFault) (net : Network V S) : Prop :=
  ∃ fresh, Network.compile s.graph s.domain = .ok fresh ∧
    s.rebuilding.run.run fresh = (.error fault, net)

omit [Score S] [LawfulScore S] in
theorem get?_of_mem_currentFacts {x : Fact V} (hd : s.facts.Distinct) (hx : x ∈ s.currentFacts) :
    s.facts.get? x.key = some x.cell := by
  obtain ⟨entry, hentry, rfl⟩ := List.mem_map.mp hx
  exact hd.get?_of_mem hentry BEq.rfl

/-- A network that is built anew has settled nothing before. -/
theorem Rebuilding.opening {width : NodeId → Nat} (h : s.Rebuilding net₀ m)
    (hw : Network.Wired net₀ width) (hu : net₀.Unused) :
    Moment.Reachable net₀ m ∧ m.Opening ∧
      (m.phase.Inserting s.currentFacts ∨ m.phase.Settling ∧ m.facts = s.facts) := by
  have hstart : (Moment.start net₀).Opening := Moment.opening_start hu.arena
  rcases h with hvia | ⟨m₁, hat, hvia, hvia'⟩
  · exact ⟨hvia.reachable .start, hstart.inserting .start hw hu rfl hvia,
      Or.inl (hvia.phase (Or.inl rfl))⟩
  · have hm₁ := hvia.reachable .start
    have hbegun := hm₁.step (.settle hat.phase)
    have hopening := (hstart.inserting .start hw hu rfl hvia).step (hm₁.sound hw hu) hw
      (.settle hat.phase) fun hlast => by
        rw [hat.phase] at hlast
        cases hlast
    refine ⟨hvia'.reachable hbegun, hopening.settling hbegun hw hu hvia',
      Or.inr ⟨hvia'.phase trivial, hvia'.facts_eq.trans hat.facts⟩⟩

section Settled

variable (hf : Formed f.graph.declarations) (halike : f.graph.Alike .outcomes)
  (hcompiled : Network.compile f.graph f.domain = .ok net₀) (hm' : Moment.Reachable net₀ m')
  (hidle : m'.Idle) (hfacts : m'.facts = s.facts)

include hf halike hcompiled hm' hidle hfacts

/-- What a network built anew for the facts of a settled one evaluates was evaluated there. -/
theorem Rebuilding.repeats (h : s.Rebuilding net₀ m) (hcmp : m.net.Comparable m'.net) :
    m.Repeats m' := by
  have hspec := Network.compile_spec hcompiled
  have hw := hspec.wired hf
  have hsound' := hm'.sound hw hspec.unused
  obtain ⟨hm, hopening, hinserting | ⟨hsettling, hsame⟩⟩ := h.opening hw hspec.unused
  · refine (hm.sound hw hspec.unused).repeats hsound' hidle hinserting fun x hx => ?_
    rw [hfacts]
    exact get?_of_mem_currentFacts (hfacts ▸ hsound'.facts_distinct) hx
  · have hretraces := SessionFactory.retraces hf halike hcompiled hm hm' hidle fun key => by
      rw [hsame, hfacts]
    exact hretraces.repeats hopening hsettling hcmp

/-- A network built anew for the facts of a settled one is stopped by nothing but a number that
leaves its range. -/
theorem Rebuilding.overflows (h : s.Rebuilding net₀ m) (hstop : m.StopsAt fault net)
    (hcmp : net.ComparableAt m'.net fault.node fault.node) : (net.kindAt fault.node).Overflows fault.fault := by
  have hspec := Network.compile_spec hcompiled
  have hw := hspec.wired hf
  have hsound' := hm'.sound hw hspec.unused
  obtain ⟨hm, hopening, hinserting | ⟨hsettling, hsame⟩⟩ := h.opening hw hspec.unused
  · refine absurd hstop ((hm.sound hw hspec.unused).not_stopsAt hw hsound' hidle hinserting ?_)
    intro x hx
    rw [hfacts]
    exact get?_of_mem_currentFacts (hfacts ▸ hsound'.facts_distinct) hx
  · have hretraces := SessionFactory.retraces hf halike hcompiled hm hm' hidle fun key => by
      rw [hsame, hfacts]
    exact hretraces.overflows hopening hsettling hstop hcmp

end Settled

omit [Std.TransOrd V] [LawfulScore S] in
/-- Once a session has settled, scoring breaks it only if the network built anew is stopped. -/
theorem calculateScore_settled {answer : Except EngineError S} {t : Session V S}
    (husable : s.poisoned = false) (hrun : Network.settle.run.run s.network = (.ok k, net))
    (hcompiled : Network.compile net.graph s.domain = .ok net₀)
    (h : calculateScore.run.run s = (answer, t)) :
    (t.poisoned = false ∧ ∀ failure, answer ≠ .error (.evaluation failure)) ∨
      t = { s with network := net, poisoned := true } ∧ ∃ fault net',
        s.rebuilding.run.run net₀ = (.error fault, net') ∧
        answer = .error (net'.evaluationError verification fault) := by
  rw [calculateScore_run husable, hrun] at h
  simp only at h
  split at h
  · rw [rebuiltScore_run, show Network.compile ({ s with network := net } : Session V S).graph
      s.domain = .ok net₀ from hcompiled] at h
    simp only at h
    rcases hrebuild : ({ s with network := net } : Session V S).rebuilding.run.run net₀ with
      ⟨fault | u, net'⟩ <;> rw [hrebuild] at h <;> simp only at h
    · obtain ⟨rfl, rfl⟩ := Prod.mk.inj h
      exact Or.inr ⟨rfl, fault, net', hrebuild, rfl⟩
    · split at h <;> obtain ⟨rfl, rfl⟩ := Prod.mk.inj h
      · exact Or.inl ⟨husable, nofun⟩
      · exact Or.inl ⟨husable, nofun⟩
  · obtain ⟨rfl, rfl⟩ := Prod.mk.inj h
    exact Or.inl ⟨husable, nofun⟩

/-- Once a session has settled, scoring breaks it only if a number of the network built anew leaves
its range. -/
theorem Reached.verified {answer : Except EngineError S} {t : Session V S}
    (ho : SessionFactory.Origin N settings written chosen f b) (halike : f.graph.Alike .outcomes)
    (hs : Reached f s) (husable : s.poisoned = false)
    (hrun : Network.settle.run.run s.network = (.ok k, net))
    (hcall : calculateScore.run.run s = (answer, t)) :
    (t.poisoned = false ∧ ∀ failure, answer ≠ .error (.evaluation failure)) ∨
    t.network = net ∧ ∃ fault net', t.RebuildStops fault net' ∧
      answer = .error (net'.evaluationError verification fault) ∧
      (net'.ComparableAt net fault.node fault.node →
        (net'.kindAt fault.node).Overflows fault.fault) := by
  obtain ⟨net₀, hcompiled, hdomain, -, m, hm⟩ := hs.live ho.formed husable
  have hspec := Network.compile_spec hcompiled
  have hw := hspec.wired ho.formed
  obtain ⟨m', hm', hidle, rfl, hfacts⟩ := (hs.settles ho.formed husable hrun).moment hcompiled
  have hgraph : Network.compile m'.net.graph s.domain = .ok net₀ := by
    rw [(hm'.sound hw hspec.unused).like.graph, hspec.graph, hdomain, hcompiled]
  refine (calculateScore_settled husable hrun hgraph hcall).imp_right ?_
  rintro ⟨rfl, fault, net', hrebuild, rfl⟩
  refine ⟨rfl, fault, net', ⟨net₀, hgraph, hrebuild⟩, rfl, fun hcmp => ?_⟩
  obtain ⟨m'', hrebuilding, hstop⟩ := rebuilding_stops hm hw hspec.unused hrebuild
  exact hrebuilding.overflows ho.formed halike hcompiled hm' hidle hfacts hstop hcmp

/-- Once a session has settled, a network built anew for its facts evaluates nothing on its way that
was not evaluated in the network of the session, on equal rows. Scoring breaks the session only if
that network is stopped, which takes a number that leaves its range. -/
theorem verification_repeats (hf : f.ProvidedBy N settings domain written chosen)
    (halike : f.graph.Alike .outcomes) (hs : Reached f s) (husable : s.poisoned = false)
    (hrun : Network.settle.run.run s.network = (.ok k, net)) :
    (∃ net₀ m, Network.compile f.graph f.domain = .ok net₀ ∧ Moment.Reachable net₀ m ∧ m.Idle ∧
      m.net = net ∧ m.facts = s.facts ∧
      ∀ m', s.Rebuilding net₀ m' → m'.net.Comparable net → m'.Repeats m) ∧
    ∀ answer t, calculateScore.run.run s = (answer, t) →
      (t.poisoned = false ∧ ∀ failure, answer ≠ .error (.evaluation failure)) ∨
      ∃ fault net', t.RebuildStops fault net' ∧
        answer = .error (net'.evaluationError verification fault) ∧
        (net'.ComparableAt net fault.node fault.node →
          (net'.kindAt fault.node).Overflows fault.fault) := by
  obtain ⟨-, -, b, ho⟩ := hf.origin
  obtain ⟨net₀, hcompiled⟩ := Network.compile_ok ho.compilable
  obtain ⟨m, hm, hidle, hnet, hfacts⟩ := (hs.settles ho.formed husable hrun).moment hcompiled
  refine ⟨⟨net₀, m, hcompiled, hm, hidle, hnet, hfacts, fun m' h hcmp =>
    h.repeats ho.formed halike hcompiled hm hidle hfacts (hnet ▸ hcmp)⟩, fun answer t hcall => ?_⟩
  refine (hs.verified ho halike husable hrun hcall).imp_right ?_
  rintro ⟨-, fault, net', hstops, herror, hover⟩
  exact ⟨fault, net', hstops, herror, hover⟩

/-- Whether the session settles, a network built anew for its facts does, and both have one score. -/
def verifies (s : Session V S) (fresh : Network V S) : Bool :=
  match Network.settle.run.run s.network, s.rebuilding.run.run fresh with
  | (.ok _, net), (.ok _, net') => Score.same net'.score net.score
  | _, _ => false

theorem Reached.scored_of_verifies (hs : Reached f s) (hf : Formed f.graph.declarations)
    (husable : s.poisoned = false) (hcompiled : Network.compile f.graph f.domain = .ok net₀)
    (h : s.verifies net₀) :
    ∃ score t, calculateScore.run.run s = (.ok score, t) ∧ t.poisoned = false := by
  unfold verifies at h
  split at h
  · rename_i k net u net' hrun hrebuild
    have hgraph : Network.compile ({ s with network := net } : Session V S).graph s.domain =
        .ok net₀ := by
      obtain ⟨-, -, hdomain, -⟩ := hs.live hf husable
      rw [show ({ s with network := net } : Session V S).graph = f.graph from
        (hs.settles hf husable hrun).graph_eq hf, hdomain, hcompiled]
    have hrebuild : ({ s with network := net } : Session V S).rebuilding.run.run net₀ =
        (.ok u, net') := hrebuild
    rw [calculateScore_run husable, hrun]
    simp only [rebuiltScore_run, hgraph, hrebuild, h, if_true]
    split
    · exact ⟨_, _, rfl, husable⟩
    · exact ⟨_, _, rfl, husable⟩
  · cases h

/-- Verifying the score of matched coins evaluates nothing that was not evaluated before, and
answers. -/
theorem verification_repeats_coins : ∃ k net net₀ m,
    Network.settle.run.run Coin.matchedSession.network = (.ok k, net) ∧
      Moment.Reachable net₀ m ∧ m.net = net ∧
      (∀ m', Coin.matchedSession.Rebuilding net₀ m' → m'.Repeats m) ∧
      Coin.matchedSession.mode.isAsserted ∧
      ∃ score t, calculateScore.run.run Coin.matchedSession = (.ok score, t) ∧
        t.poisoned = false := by
  obtain ⟨c, chosen, hf⟩ := Coin.matchedFactory_provided
  obtain ⟨-, -, b, ho⟩ := hf.origin
  obtain ⟨hreached, husable, -⟩ := Coin.matchedSession_ran.1.facts_eq ho.formed
  obtain ⟨k, net, hrun⟩ := Coin.matchedSession_ran.2
  obtain ⟨⟨net₀, m, hcompiled, hm, -, hnet, -, hrepeats⟩, -⟩ := verification_repeats hf
    (Coin.matchedFactory_alike _) hreached husable hrun
  have hsums : net.SumsWhole := (hreached.settles ho.formed husable hrun).sumsWhole ho.formed
    Coin.matchedFactory_givesWhole
  refine ⟨k, net, net₀, m, hrun, hm, hnet, fun m' h => hrepeats m' h ?_, ?_⟩
  · have hspec := Network.compile_spec hcompiled
    have hw := hspec.wired ho.formed
    have hsound := (h.opening hw hspec.unused).1.sound hw hspec.unused
    exact (hsound.sumsWhole hspec Coin.matchedFactory_givesWhole).comparable hsums
  · have hruns : Coin.matchedSession.verifies Coin.matchedNetwork ∧
        Coin.matchedSession.mode.isAsserted := by
      decide +kernel
    exact ⟨hruns.2, hreached.scored_of_verifies ho.formed husable Coin.matchedNetwork_compiled
      hruns.1⟩

end Session

end ConstraintScoring
