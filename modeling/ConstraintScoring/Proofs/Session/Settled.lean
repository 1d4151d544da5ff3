import ConstraintScoring.Proofs.Network.Agreement
import ConstraintScoring.Proofs.Session.Factory

/-!
# Settled networks

A network of a factory is settled for some facts if it is at rest, nothing waits in it, and these are
the facts that its sources were told of. Every call that settles the network of a session leaves it
like this, and so does building a network anew for the facts of a session.
-/

namespace ConstraintScoring

variable {V S : Type} [Cell V] [Score S]

namespace SessionFactory

/-- A network of the factory that was settled with the given facts. -/
inductive Settles (f : SessionFactory V S) (facts : Table (FactKey V) V) : Network V S → Prop where
  | rests {net₀ : Network V S} {m : Moment V S} : Network.compile f.graph f.domain = .ok net₀ →
      Moment.Reachable net₀ m → m.Idle → m.facts = facts → Settles f facts m.net

end SessionFactory

namespace Session

/-- The network that is built anew for the facts of the session comes to rest as `net`. -/
def Rebuilds (s : Session V S) (net : Network V S) : Prop :=
  ∃ fresh, Network.compile s.graph s.domain = .ok fresh ∧
    s.rebuilding.run.run fresh = (.ok ⟨⟩, net)

variable [Std.TransOrd V] [LawfulScore S] {f : SessionFactory V S} {s s' : Session V S}
  {net : Network V S} {k : Nat}

theorem Reached.settles (h : Reached f s) (hf : Formed f.graph.declarations)
    (hs : s.poisoned = false) (hrun : Network.settle.run.run s.network = (.ok k, net)) :
    f.Settles s.facts net := by
  obtain ⟨net₀, hcompiled, hdomain, hmode, m, hm⟩ := h.live hf hs
  have hspec := Network.compile_spec hcompiled
  have hgoes := Moment.settle_goes hm.reachable (hspec.wired hf) hspec.unused hm.phase
  unfold Moment.Goes at hgoes
  rw [hm.net, hrun] at hgoes
  obtain ⟨m', hm', rfl, -, hidle, hfacts⟩ := hgoes
  exact .rests hcompiled hm' hidle (hfacts.trans hm.facts)

/-- A network that was settled can be built anew. -/
theorem Reached.compiled (h : Reached f s) (hf : Formed f.graph.declarations)
    (hs : s.poisoned = false) : ∃ fresh, ∀ k net,
      Network.settle.run.run s.network = (.ok k, net) →
        Network.compile net.graph s.domain = .ok fresh := by
  obtain ⟨net₀, hcompiled, hdomain, -⟩ := h.live hf hs
  refine ⟨net₀, fun k net hrun => ?_⟩
  obtain ⟨hc, hm, -, -⟩ := h.settles hf hs hrun
  have hspec := Network.compile_spec hc
  rw [(hm.sound (hspec.wired hf) hspec.unused).like.graph, hspec.graph, hdomain, hcompiled]

/-- What is built anew for the facts of a session is settled with these facts. -/
theorem Reached.rebuilds_settles (h : Reached f s) (hf : Formed f.graph.declarations)
    (hs : s.poisoned = false) (hb : s.Rebuilds net) : f.Settles s.facts net := by
  obtain ⟨net₀, hcompiled, hdomain, hmode, m, hm⟩ := h.live hf hs
  have hspec := Network.compile_spec hcompiled
  obtain ⟨fresh, hfresh, hrun⟩ := hb
  have hgraph : s.graph = f.graph := by
    unfold graph
    rw [← hm.net, (hm.reachable.sound (hspec.wired hf) hspec.unused).like.graph, hspec.graph]
  rw [hgraph, hdomain, hcompiled] at hfresh
  obtain rfl := Except.ok.inj hfresh
  have hgoes := rebuilding_goes hm (hspec.wired hf) hspec.unused
  unfold Moment.Goes at hgoes
  rw [show (Moment.start net₀).net = net₀ from rfl, hrun] at hgoes
  obtain ⟨m', -, rfl, -, hbuilt⟩ := hgoes
  exact .rests hcompiled hbuilt.reachable hbuilt.idle hbuilt.facts

omit [LawfulScore S] [Score S] in
/-- Facts with keys of their own end up in a table in the order in which they came. -/
theorem addAll_entries {facts : Table (FactKey V) V} {fs : List (Fact V)}
    (hnew : ∀ x ∈ fs, facts.get? x.key = none)
    (hkeys : fs.Pairwise fun x y => (x.key == y.key) = false) :
    (addAll facts fs).entries = facts.entries ++ fs.map fun x => (x.key, x.cell) := by
  induction fs generalizing facts with
  | nil => exact (List.append_nil _).symm
  | cons x fs ih =>
      obtain ⟨hx, hfs⟩ := List.pairwise_cons.mp hkeys
      have hentries := Table.insert_entries_of_none x.cell (hnew x List.mem_cons_self)
      have hstep : addAll facts (x :: fs) = addAll (facts.insert x.key x.cell) fs := rfl
      rw [hstep, ih (fun y hy => ?_) hfs, hentries, List.map_cons, List.append_assoc,
        List.singleton_append]
      rw [Table.get?_insert, hx y hy, if_neg Bool.false_ne_true]
      exact hnew y (List.mem_cons_of_mem x hy)

omit [LawfulScore S] in
/-- A session that is built with the facts of another one holds the same facts. -/
theorem built_facts {fs : List (Fact V)} {tracksMatches : Bool}
    (hbuild : f.buildSession fs tracksMatches = .ok s') (hd : s.facts.Distinct)
    (hfs : fs.Perm s.currentFacts) (key : FactKey V) : s.facts.get? key = s'.facts.get? key := by
  have hcurrent : s.currentFacts.Pairwise fun x y => (x.key == y.key) = false :=
    List.pairwise_map.mpr hd
  have hkeys : fs.Pairwise fun x y => (x.key == y.key) = false :=
    (hfs.pairwise_iff fun hxy => BEq.symm_false hxy).mpr hcurrent
  have hentries : s'.facts.entries = fs.map fun x => (x.key, x.cell) := by
    rw [(built_live hbuild).2.1, addAll_entries (fun _ _ => rfl) hkeys]
    rfl
  have hsame : s.currentFacts.map (fun x => (x.key, x.cell)) = s.facts.entries := by
    unfold currentFacts
    rw [List.map_map]
    exact List.map_id _
  refine hd.get?_perm ?_ key
  rw [hentries, ← hsame]
  exact (hfs.map _).symm

section Scoring

omit [Std.TransOrd V] [LawfulScore S]

theorem rebuiltScore_run (s : Session V S) : rebuiltScore.run.run s =
    match Network.compile s.graph s.domain with
    | .error e => (.error e, s)
    | .ok fresh =>
        match s.rebuilding.run.run fresh with
        | (.ok _, net) => (.ok net.score, s)
        | (.error fault, net) =>
            (.error (net.evaluationError verification fault), { s with poisoned := true }) := by
  have hanswer : ∀ x : Except NetworkFault PUnit × Network V S, (match x with
      | (.ok _, fresh) => return fresh.score
      | (.error fault, fresh) => poison (fresh.evaluationError verification fault) :
        SessionCall V S S).run.run s =
        match x with
        | (.ok _, net) => (.ok net.score, s)
        | (.error fault, net) =>
            (.error (net.evaluationError verification fault), { s with poisoned := true }) := by
    rintro ⟨fault | ⟨⟩, net⟩ <;> rfl
  have hcompiled : ∀ x : Except EngineError (Network V S), (do
      let fresh ← (x : Except EngineError _)
      match s.rebuilding.run.run fresh with
      | (.ok _, fresh) => return fresh.score
      | (.error fault, fresh) => poison (fresh.evaluationError verification fault) :
        SessionCall V S S).run.run s =
        match x with
        | .error e => (.error e, s)
        | .ok fresh =>
            match s.rebuilding.run.run fresh with
            | (.ok _, net) => (.ok net.score, s)
            | (.error fault, net) =>
                (.error (net.evaluationError verification fault), { s with poisoned := true }) := by
    rintro (e | fresh)
    · rfl
    · exact hanswer (s.rebuilding.run.run fresh)
  exact hcompiled (Network.compile s.graph s.domain)

/-- The verification of a session answers the score of the network built anew, or fails. -/
theorem rebuilds_of_run {score : S} (h : rebuiltScore.run.run s = (.ok score, s')) :
    s' = s ∧ ∃ net, s.Rebuilds net ∧ score = net.score := by
  rw [rebuiltScore_run] at h
  split at h
  · cases h
  · rename_i fresh hfresh
    split at h
    · rename_i u net hrun
      obtain ⟨hscore, rfl⟩ := Prod.mk.inj h
      exact ⟨rfl, net, ⟨fresh, hfresh, hrun⟩, (Except.ok.inj hscore).symm⟩
    · cases h

/-- Calculating the score settles, and full assertion compares what a new network comes to. -/
theorem calculateScore_run (hs : s.poisoned = false) : calculateScore.run.run s =
    match Network.settle.run.run s.network with
    | (.error fault, net) => (.error (net.evaluationError "calculate_score" fault),
        { s with network := net, poisoned := true })
    | (.ok _, net) =>
        if s.mode.isAsserted then
          match rebuiltScore.run.run { s with network := net } with
          | (.ok rebuilt, s') =>
              if Score.same rebuilt net.score then (.ok net.score, s')
              else (.error (.scoreCorruption (Score.text net.score) (Score.text rebuilt)), s')
          | (.error e, s') => (.error e, s')
        else (.ok net.score, { s with network := net }) := by
  unfold calculateScore
  rw [checkUsable_passes hs, Outcome.run_bind, guarded_run]
  rcases Network.settle.run.run s.network with ⟨fault | k, net⟩
  · rfl
  · change (if s.mode.isAsserted then do
        let rebuilt ← rebuiltScore
        if Score.same rebuilt net.score then return net.score
        else throw (.scoreCorruption (Score.text net.score) (Score.text rebuilt))
      else return net.score : SessionCall V S S).run.run { s with network := net } = _
    cases s.mode.isAsserted with
    | false => rfl
    | true =>
        simp only [if_true]
        rw [Outcome.run_bind]
        rcases rebuiltScore.run.run { s with network := net } with ⟨e | rebuilt, s'⟩
        · rfl
        · simp only
          split <;> rfl

/-- A session that a call was answered by is not poisoned. -/
theorem usable_of_score {score : S} (h : calculateScore.run.run s = (.ok score, s')) :
    s.poisoned = false := usable_of_run h nofun

/-- An answered score is that of the network once it was settled. -/
theorem score_of_run {score : S} (h : calculateScore.run.run s = (.ok score, s')) :
    ∃ k, Network.settle.run.run s.network = (.ok k, s'.network) ∧ score = s'.network.score ∧
      s'.facts = s.facts := by
  rw [calculateScore_run (usable_of_score h)] at h
  split at h
  · cases h
  · rename_i k net hrun
    split at h
    · split at h
      · rename_i rebuilt s'' hrebuilt
        obtain ⟨rfl, -⟩ := rebuilds_of_run hrebuilt
        split at h
        · cases h
          exact ⟨k, hrun, rfl, rfl⟩
        · cases h
      · cases h
    · cases h
      exact ⟨k, hrun, rfl, rfl⟩

theorem usable_of_corruption {x y : String}
    (h : calculateScore.run.run s = (.error (.scoreCorruption x y), s')) : s.poisoned = false :=
  usable_of_run h nofun

/-- A score is found corrupt only if the network built anew comes to another one. -/
theorem corruption_of_run {x y : String} {fresh : Network V S}
    (hfresh : ∀ k net, Network.settle.run.run s.network = (.ok k, net) →
      Network.compile net.graph s.domain = .ok fresh)
    (h : calculateScore.run.run s = (.error (.scoreCorruption x y), s')) :
    ∃ k net net', Network.settle.run.run s.network = (.ok k, net) ∧
      s' = { s with network := net } ∧ s'.Rebuilds net' ∧ Score.same net'.score net.score = false := by
  rw [calculateScore_run (usable_of_corruption h)] at h
  split at h
  · cases h
  · rename_i k net hrun
    split at h
    · have hgraph : Network.compile ({ s with network := net } : Session V S).graph s.domain =
          .ok fresh := hfresh k net hrun
      split at h
      · rename_i rebuilt s'' hrebuilt
        obtain ⟨rfl, net', hnet', rfl⟩ := rebuilds_of_run hrebuilt
        split at h
        · cases h
        · rename_i hsame
          cases h
          exact ⟨k, net, net', hrun, rfl, hnet', by simpa using hsame⟩
      · rename_i e s'' hrebuilt
        rw [rebuiltScore_run, hgraph] at hrebuilt
        simp only at hrebuilt
        split at hrebuilt
        · cases hrebuilt
        · obtain ⟨he, -⟩ := Prod.mk.inj hrebuilt
          cases h
          cases he
    · cases h

end Scoring

end Session

omit [Cell V] [Score S] in
theorem Query.givesWhole_spreads : Query.Spreads (V := V) Query.GivesWhole fun op =>
    ∀ keys collectors, op = .group keys collectors → ∀ c ∈ collectors, c.GivesWhole := by
  intro op qs q hq h
  unfold Operation.query at hq
  split at hq <;> cases hq
  case h_1 => exact ⟨nofun, nofun⟩
  case h_8 keys collectors q =>
    refine ⟨fun keys' collectors' hop c hc => ?_, List.forall_mem_singleton.mpr h.2⟩
    obtain ⟨rfl, rfl⟩ := Operation.group.inj hop
    have hunnamed := h.1 _ (List.mem_map_of_mem hc)
    exact hunnamed
  case h_9 | h_10 | h_11 =>
    exact ⟨nofun, List.forall_mem_cons.mpr ⟨h.1, List.forall_mem_singleton.mpr h.2⟩⟩
  all_goals exact ⟨nofun, List.forall_mem_singleton.mpr h⟩

/-- If nothing was declared in vain, a graph for queries that give no decimal places to their sums
gives none either. -/
theorem SessionFactory.Origin.givesWhole {N : Naming V} {settings : FactorySettings S}
    {written : List (Written V S)} {chosen : List Constraint} {f : SessionFactory V S}
    {b : GraphBuilder V S} (h : Origin N settings written chosen f b) (hN : N.Functional)
    (hactive : ∀ id < f.graph.size, f.graph.isActive id)
    (hwhole : ∀ w ∈ written, w.query.GivesWhole) : f.graph.GivesWhole :=
  fun _ _ keys collectors hc hop x hx =>
    h.spreads hN hactive Query.givesWhole_spreads hwhole hc keys collectors hop x hx

namespace SessionFactory.Settles

variable [Std.TransOrd V] [LawfulScore S] {N N' : Naming V} {settings settings' : FactorySettings S}
  {domain : DomainModel V} {written written' : List (Written V S)} {chosen chosen' : List Constraint}
  {f f' : SessionFactory V S} {b b' : GraphBuilder V S} {facts facts' : Table (FactKey V) V}
  {net net' : Network V S} {id : NodeId} {a : NetworkNode V S} {q : Query V} {i i' : Nat}

theorem distinct (h : f.Settles facts net) (hf : Formed f.graph.declarations) : facts.Distinct := by
  obtain ⟨hcompiled, hm, -, rfl⟩ := h
  have hspec := Network.compile_spec hcompiled
  exact (hm.sound (hspec.wired hf) hspec.unused).facts_distinct

theorem like {net₀ : Network V S} (h : f.Settles facts net) (hf : Formed f.graph.declarations)
    (hcompiled : Network.compile f.graph f.domain = .ok net₀) : Network.Like net₀ net := by
  obtain ⟨hc, hm, -, -⟩ := h
  obtain rfl := Except.ok.inj (hcompiled.symm.trans hc)
  have hspec := Network.compile_spec hcompiled
  exact (hm.sound (hspec.wired hf) hspec.unused).like

theorem graph_eq (h : f.Settles facts net) (hf : Formed f.graph.declarations) :
    net.graph = f.graph := by
  obtain ⟨hc, hm, -, -⟩ := h
  have hspec := Network.compile_spec hc
  rw [(hm.sound (hspec.wired hf) hspec.unused).like.graph, hspec.graph]

theorem balances (h : f.Settles facts net) (hf : Formed f.graph.declarations) :
    net.ledger.Balances net.bags := by
  obtain ⟨hc, hm, -, -⟩ := h
  have hspec := Network.compile_spec hc
  exact (hm.sound (hspec.wired hf) hspec.unused).balances

theorem scoring (h : f.Settles facts net) (ho : Origin N settings written chosen f b) :
    Network.Scoring f.graph net := by
  obtain ⟨hc, hm, -, -⟩ := h
  have hspec := Network.compile_spec hc
  exact (ho.scoring hspec).like (hm.sound (hspec.wired ho.formed) hspec.unused).like

theorem sumsWhole (h : f.Settles facts net) (hf : Formed f.graph.declarations)
    (hg : f.graph.GivesWhole) : net.SumsWhole := by
  obtain ⟨hcompiled, hm, -, -⟩ := h
  have hspec := Network.compile_spec hcompiled
  exact (hm.sound (hspec.wired hf) hspec.unused).sumsWhole hspec hg

/-- The rows of a node are what the query of its declaration yields over the facts. -/
theorem yields (h : f.Settles facts net) (hf : Formed f.graph.declarations)
    (ha : net.nodes[id]? = some a) (hbridge : (net.kindAt id).isBridge = false)
    (hscore : ∀ n, net.kindAt id ≠ .score n)
    (hq : Unfolds (declaredIn f.graph.declarations) a.decl q) :
    q.Yields f.domain (factsIn facts) (net.presents id) (rowsOf net.arena.row (net.outs id)) := by
  obtain ⟨hcompiled, hm, hidle, rfl⟩ := h
  rename_i net₀ m
  have hspec := Network.compile_spec hcompiled
  have hw := hspec.wired hf
  have hsound := hm.sound hw hspec.unused
  obtain ⟨a₀, ha₀, hdecl, -⟩ := hsound.like.node ha
  refine hsound.yields hw hspec hf hidle.settledTo ha₀
    (Or.inl ((hw.like hsound.like).mem_order id (Network.lt_of_kindAt rfl hbridge))) ?_ ?_
    (hdecl ▸ hq)
  · unfold Network.IsBridge
    rw [← hsound.like.isBridge, hbridge]
    exact Bool.false_ne_true
  · intro n hn
    obtain ⟨n', hn', -⟩ := hsound.like.symm.score hn
    exact hscore n' hn'

/-- A node that scores has the matches of the query of its declaration. -/
theorem scored (h : f.Settles facts net) (hf : Formed f.graph.declarations)
    (ha : net.nodes[id]? = some a) (hq : Unfolds (declaredIn f.graph.declarations) a.decl q)
    {n : ScoreNode V S} (hn : net.kindAt id = .score n) :
    n.Scores net.arena.row f.domain (factsIn facts) ((net.presents id).under .left) q := by
  obtain ⟨hcompiled, hm, hidle, rfl⟩ := h
  have hspec := Network.compile_spec hcompiled
  have hw := hspec.wired hf
  have hsound := hm.sound hw hspec.unused
  obtain ⟨a₀, ha₀, hdecl, -⟩ := hsound.like.node ha
  exact hsound.scored hw hspec hf hidle ha₀ (hdecl ▸ hq) hn

/-- The node that scores an active constraint. -/
theorem scoreNode (h : f.Settles facts net) (ho : Origin N settings written chosen f b)
    (hi : i ∈ f.graph.activeConstraints) : ∃ id n a w total, net.kindAt id = .score n ∧
      n.constraint = i ∧ net.scoreNode? i = some (id, n) ∧ net.nodes[id]? = some a ∧
      written[i]? = some w ∧ n.impact = w.terms.impact ∧ n.weigher = w.terms.weigher ∧
      n.weight = settings.overrides.effective w.constraint.ref w.weight ∧
      (N.Functional → Unfolds (declaredIn f.graph.declarations) a.decl w.query) ∧
      net.ledger.totals[i]? = some total ∧ total.ref = w.constraint.ref := by
  obtain ⟨hcompiled, hm, hidle, rfl⟩ := h
  rename_i net₀ m
  have hspec := Network.compile_spec hcompiled
  have hw := hspec.wired ho.formed
  have hsound := hm.sound hw hspec.unused
  have hscoring := (ho.scoring hspec).like hsound.like
  obtain ⟨id, n, hn, rfl⟩ := hscoring.node i hi
  obtain ⟨n₀, hn₀, halike⟩ := hsound.like.score hn
  obtain ⟨a₀, c, ha₀, -, hc, hend, himpact, hweight, hweigher⟩ := ho.scoreNode hspec hn₀
  obtain ⟨w, c', hwritten, hc', href, himpact', hweigher', hweight', hunfolds⟩ := ho.constraint hi
  rw [halike.constraint] at hc'
  obtain rfl := Option.some.inj (hc.symm.trans hc')
  obtain ⟨a, ha, hdecl, -⟩ := hsound.like.symm.node ha₀
  have hrefs : m.net.ledger.refs[n.constraint]? = some c.ref := by
    rw [hsound.like.refs, hspec.ledger]
    unfold Ledger.refs Ledger.new
    rw [halike.constraint, Array.map_map, Array.getElem?_map, Array.getElem?_map, hc]
    rfl
  unfold Ledger.refs at hrefs
  rw [Array.getElem?_map] at hrefs
  obtain ⟨total, htotal, hctotal⟩ := Option.map_eq_some_iff.mp hrefs
  exact ⟨id, n, a, w, total, hn, rfl, hscoring.scoreNode?_eq hn, ha, hwritten,
    halike.impact.trans (himpact.trans himpact'), halike.weigher.trans (hweigher.trans hweigher'),
    halike.weight.trans (hweight.trans hweight'),
    fun hN => (hdecl.trans hend) ▸ hunfolds hN, htotal, hctotal.trans href⟩

end SessionFactory.Settles

end ConstraintScoring
