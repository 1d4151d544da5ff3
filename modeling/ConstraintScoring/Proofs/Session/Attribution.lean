import ConstraintScoring.Proofs.Network.Halting
import ConstraintScoring.Proofs.Network.Retracing
import ConstraintScoring.Proofs.Session.Freezing
import ConstraintScoring.Proofs.Session.Requests

/-!
# What a failure names

A call that is stopped while its network works is answered with a failure. It names the call, the kind
of the node that halted, and the active constraints that the node's rows count for. It also names what
the node looked at, and why it gave up.
-/

namespace ConstraintScoring

variable {V S : Type}

/-- What the failure of a named call says of the node that halted. -/
structure EvaluationFailure.Blames (x : EvaluationFailure) (written : List (Written V S))
    (net : Network V S) (name : String) (stop : NetworkFault) : Prop where
  call : x.call = name
  node : x.node = (net.kindAt stop.node).opKind.label
  /-- The names are those of the active constraints, in the order in which they were finished, that
  are scored by the node or by one that its rows lead to. -/
  constraints : ∃ indices : List Nat, indices.Pairwise (· < ·) ∧
    (∀ i, i ∈ indices ↔ i ∈ net.graph.activeConstraints ∧ ∃ j n, net.kindAt j = .score n ∧
      n.constraint = i ∧ Relation.ReflTransGen net.Below stop.node j) ∧
    List.Forall₂ (fun i text => ∃ w, written[i]? = some w ∧ text = w.constraint.ref.fullName)
      indices x.constraints
  subject : x.subject = stop.subject
  fault : x.fault = stop.fault
  raised : ∀ text, stop.fault = .raised text → x.fault.message = text
  wordless : stop.fault = .wordless → x.fault.message = "non-string panic payload"

section

theorem Network.Blank.kind_eq {g : DeclarationGraph V S} {domain : DomainModel V}
    {k : NodeKind V S} {op : Operation V} (h : Network.Blank g domain k op) :
    op.kind = k.opKind := by
  cases op with
  | source _ _ | score _ =>
      obtain ⟨c, -, rfl⟩ := h
      rfl
  | _ =>
      obtain rfl : k = _ := h
      rfl

variable {net₀ net net' : Network V S} {call : String} {stop : NetworkFault}

theorem Network.evaluationError_congr (hnodes : net'.nodes = net.nodes)
    (hgraph : net'.graph = net.graph) :
    net'.evaluationError call stop = net.evaluationError call stop := by
  unfold Network.evaluationError
  rw [hnodes, hgraph]

/-- The failure for a fault does not depend on what a network has been working on. -/
theorem Network.Like.evaluationError (h : Network.Like net₀ net) :
    net.evaluationError call stop = net₀.evaluationError call stop := by
  unfold Network.evaluationError
  rw [h.graph]
  cases ha : net.nodes[stop.node]? with
  | some a =>
      obtain ⟨a₀, ha₀, hdecl, -⟩ := h.node ha
      simp only [ha₀, hdecl]
  | none =>
      cases ha₀ : net₀.nodes[stop.node]? with
      | some a₀ =>
          obtain ⟨a, hsome, -⟩ := h.symm.node ha₀
          rw [ha] at hsome
          cases hsome
      | none => rfl

end

namespace SessionFactory

variable [Cell V] [Score S] {N : Naming V} {settings : FactorySettings S} {domain : DomainModel V}
  {written : List (Written V S)} {chosen : List Constraint} {f : SessionFactory V S}
  {b : GraphBuilder V S} {net : Network V S}

theorem ProvidedBy.owners_sorted (h : ProvidedBy N settings domain written chosen f) (id : DeclId) :
    (f.graph.ownersOf id).Pairwise (· < ·) := by
  obtain ⟨hprovided, hf⟩ := h
  obtain ⟨graph, hgraph, hf⟩ := Outcome.bind_eq_ok.mp hf
  obtain rfl := Except.ok.inj hf
  have hsound := hprovided.sound
  unfold ConstraintFactory.freeze at hgraph
  split at hgraph
  · cases hgraph
  · exact GraphBuilder.owners_sorted hgraph hsound.graph.formed hsound.ended id

namespace Origin

/-- The end of a constraint depends on a declaration if its rows lead to the node that scores the
constraint. -/
theorem dependsOn_iff (h : Origin N settings written chosen f b)
    (hc : Network.Compiled f.graph f.domain net) {id j : NodeId} {a : NetworkNode V S}
    {n : ScoreNode V S} {c : ConstraintDef V S} (ha : net.nodes[id]? = some a)
    (hn : net.kindAt j = .score n) (hconstraint : f.graph.constraints[n.constraint]? = some c) :
    DependsOn (declaredIn f.graph.declarations) c.scoreDecl a.decl ↔
      Relation.ReflTransGen net.Below id j := by
  obtain ⟨e, c', he, hactive, hc', hend, -⟩ := h.scoreNode hc hn
  obtain rfl := Option.some.inj (hconstraint.symm.trans hc')
  constructor
  · intro hdepends
    generalize hdecl : a.decl = decl at hdepends
    induction hdepends generalizing id a with
    | self =>
        obtain rfl := hc.eq_of_decl ha he (hdecl.trans hend.symm)
        exact .refl
    | parent hdepends hd hp ih =>
        rename_i child d p
        -- the declaration in between is active, so it has a node of its own
        have hbetween : f.graph.isActive child :=
          h.frozen.isActive_iff.mpr ⟨_, hactive, c, hconstraint, h.frozen.declarations ▸ hdepends⟩
        obtain ⟨k, b, hb, rfl⟩ := hc.exists_node (lt_of_declaredIn hd) hbetween
        have hbelow : net.Below id k := (hc.below_iff h.formed ha hb hd).mpr (hdecl ▸ hp)
        exact .head hbelow (ih hb rfl)
  · intro hleads
    induction hleads using Relation.ReflTransGen.head_induction_on generalizing a with
    | refl =>
        obtain rfl := Option.some.inj (ha.symm.trans he)
        exact hend ▸ .self
    | head hbelow _ ih =>
        obtain ⟨a', b, d, ha', hb, hd, hp⟩ := hc.of_below h.formed hbelow
        obtain rfl := Option.some.inj (ha.symm.trans ha')
        exact (ih hb).parent hd hp

theorem mem_ownersOf (h : Origin N settings written chosen f b)
    (hc : Network.Compiled f.graph f.domain net) {id : NodeId} {a : NetworkNode V S}
    (ha : net.nodes[id]? = some a) (i : Nat) : i ∈ f.graph.ownersOf a.decl ↔
      i ∈ f.graph.activeConstraints ∧ ∃ j n, net.kindAt j = .score n ∧ n.constraint = i ∧
        Relation.ReflTransGen net.Below id j := by
  rw [h.frozen.mem_owners, ← h.frozen.declarations]
  refine and_congr_right fun hi => ?_
  constructor
  · rintro ⟨c, hconstraint, hdepends⟩
    obtain ⟨j, n, hn, rfl⟩ := (h.scoring hc).node i hi
    exact ⟨j, n, hn, rfl, (h.dependsOn_iff hc ha hn hconstraint).mp hdepends⟩
  · rintro ⟨j, n, hn, rfl, hleads⟩
    obtain ⟨-, c, -, -, hconstraint, -⟩ := h.scoreNode hc hn
    exact ⟨c, hconstraint, (h.dependsOn_iff hc ha hn hconstraint).mpr hleads⟩

/-- Active constraints go by the names under which they were finished. -/
theorem names (h : Origin N settings written chosen f b) {indices : List Nat}
    (hactive : ∀ i ∈ indices, i ∈ f.graph.activeConstraints) :
    List.Forall₂ (fun i text => ∃ w, written[i]? = some w ∧ text = w.constraint.ref.fullName)
      indices ((indices.filterMap f.graph.refOf?).map (·.fullName)) := by
  induction indices with
  | nil => exact .nil
  | cons i indices ih =>
      obtain ⟨w, c, hw, hc, href, -⟩ := h.constraint (hactive i List.mem_cons_self)
      have hrefOf : f.graph.refOf? i = some w.constraint.ref := by
        unfold DeclarationGraph.refOf?
        rw [hc, Option.map_some, href]
      rw [List.filterMap_cons_some hrefOf, List.map_cons]
      exact .cons ⟨w, hw, rfl⟩ (ih fun j hj => hactive j (List.mem_cons_of_mem i hj))

end Origin

/-- The failure for a fault of a node blames this node. -/
theorem ProvidedBy.blames (h : ProvidedBy N settings domain written chosen f)
    (hcompiled : Network.compile f.graph f.domain = .ok net) {a : NetworkNode V S}
    {stop : NetworkFault} (ha : net.nodes[stop.node]? = some a) (call : String) :
    ∃ x : EvaluationFailure, net.evaluationError call stop = .evaluation x ∧
      x.Blames written net call stop := by
  obtain ⟨-, -, b, ho⟩ := h.origin
  have hc := Network.compile_spec hcompiled
  obtain ⟨d, hd, hkind, -⟩ := hc.node stop.node a ha
  have hcoded : d.key.kind = d.operation.kind := by
    refine (ho.sound.coded a.decl d.candidate ?_).1
    rw [← ho.declared_eq]
    exact declaredIn_eq_some.mpr ⟨d, hd, rfl⟩
  have hblank := Network.nodeKind_spec hkind
  refine ⟨_, rfl, rfl, ?_, ⟨f.graph.ownersOf a.decl, h.owners_sorted a.decl, ?_, ?_⟩, rfl, rfl,
    fun text htext => ?_, fun hwordless => ?_⟩
  · simp only [ha, hc.graph, hd]
    rw [Declaration.kind, hcoded, hblank.kind_eq, Network.kindAt_of_node ha]
  · rw [hc.graph]
    exact ho.mem_ownersOf hc ha
  · simp only [ha, hc.graph]
    exact ho.names fun i hi => ((ho.mem_ownersOf hc ha i).mp hi).1
  · rw [htext]
    rfl
  · rw [hwordless]
    rfl

end SessionFactory

namespace Session

variable [Cell V] [Score S]

/-- What is known of a request to a session at a moment between calls if a fault stops its network. -/
structure Request.Attributed (r : Request V) (s : Session V S) (f : SessionFactory V S)
    (written : List (Written V S)) (net₀ : Network V S) (m₀ : Moment V S) : Prop where
  /-- The answer blames the node at which the network halts. -/
  stopped : r.Admitted s → ∀ stop net, r.Stops s stop net → ∃ x s' m,
    r.answer.run.run s = (.error (.evaluation x), s') ∧ m₀.Leads m ∧ m.Halts stop net ∧
      x.Blames written net₀ r.callName stop
  /-- So it does if the network halts that verifies the score. -/
  unverified : r = .call .calculateScore → s.mode.isAsserted → ∀ n net stop net',
    Network.settle.run.run s.network = (.ok n, net) →
    s.rebuilding.run.run net₀ = (.error stop, net') → ∃ x s' m,
      r.answer.run.run s = (.error (.evaluation x), s') ∧ s.Rebuilding net₀ m ∧
        m.Halts stop net' ∧ x.Blames written net₀ verification stop
  /-- Building a session that cannot take in a fact is answered likewise. -/
  unbuilt : ∀ a e s', r = .insertInitial a → r.answer.run.run s = (.error e, s') →
    ∀ facts later tracksMatches, f.buildSession facts tracksMatches = .ok s →
      f.buildSession (facts ++ a :: later) tracksMatches = .error e

variable {f : SessionFactory V S} {s s' s₀ : Session V S} {net₀ net : Network V S}
  {m m₀ : Moment V S} {r : Request V} {stop : NetworkFault} {width : NodeId → Nat} {a : Fact V}
  {facts : List (Fact V)} {e : EngineError}

omit [Score S] in
theorem insertAll_fails (hfacts : (insertAll facts).run.run s₀ = (.ok (), s))
    (hrun : (addFact describeInitial a).run.run s = (.error e, s')) (later : List (Fact V)) :
    (insertAll (facts ++ a :: later)).run.run s₀ = (.error e, s') := by
  induction facts generalizing s₀ with
  | nil =>
      obtain rfl : s₀ = s := (Prod.mk.inj hfacts).2
      rw [List.nil_append, insertAll, Outcome.run_bind, hrun]
  | cons x facts ih =>
      rw [insertAll, Outcome.run_bind] at hfacts
      rw [List.cons_append, insertAll, Outcome.run_bind]
      rcases hx : (addFact describeInitial x).run.run s₀ with ⟨e' | ⟨⟩, s₁⟩
      · rw [hx] at hfacts
        cases hfacts
      · rw [hx] at hfacts
        exact ih hfacts

theorem buildSession_fails {tracksMatches : Bool}
    (hbuild : f.buildSession facts tracksMatches = .ok s)
    (hrun : (Request.insertInitial a).answer.run.run s = (.error e, s')) (later : List (Fact V)) :
    f.buildSession (facts ++ a :: later) tracksMatches = .error e := by
  have hadd : (addFact describeInitial a).run.run s = (.error e, s') := by
    unfold Request.answer at hrun
    rw [Outcome.run_bind] at hrun
    rcases ha : (addFact describeInitial a).run.run s with ⟨e' | ⟨⟩, s₁⟩ <;> rw [ha] at hrun
    · obtain ⟨he, rfl⟩ := Prod.mk.inj hrun
      rw [Except.error.inj he]
    · cases hrun
  obtain ⟨s₀, hnew, h⟩ := Outcome.bind_eq_ok.mp hbuild
  have hfacts : (insertAll facts).run.run s₀ = (.ok (), s) := by
    rcases hins : (insertAll facts).run.run s₀ with ⟨e' | ⟨⟩, s₁⟩ <;> rw [hins] at h <;> cases h
    rfl
  refine Outcome.bind_eq_error.mpr (Or.inr ⟨s₀, hnew, ?_⟩)
  rw [insertAll_fails hfacts hadd later]
  rfl

theorem Rebuilding.reachable (h : s.Rebuilding net₀ m) : Moment.Reachable net₀ m := by
  rcases h with hvia | ⟨m₁, hat, hvia, hsettling⟩
  · exact Moment.Via.reachable .start hvia
  · exact hsettling.reachable ((Moment.Via.reachable .start hvia).step (.settle hat.phase))

variable [Std.TransOrd V] [LawfulScore S]

/-- A session halts while a change of a fact is staged. -/
theorem At.stage_halts {c : FactChange} (hm : s.At net₀ m₀) (hw : Network.Wired net₀ width)
    (hu : net₀.Unused) (hallowed : c.Allowed s.facts a)
    (hrun : (Network.stage c.stage a).run.run s.network = (.error stop, net)) :
    ∃ m, Moment.Reachable net₀ m ∧ m₀.Leads m ∧ m.Halts stop net := by
  have hvia := Moment.stage_via hm.reachable hm.phase (hm.facts.symm ▸ hallowed)
  unfold Moment.GoesVia at hvia
  rw [hm.net, hrun] at hvia
  obtain ⟨m, hreach, hvia, hstop⟩ := hvia
  exact ⟨m, hreach, hvia.leads, hstop.halts (hreach.sound hw hu) hw⟩

/-- A session halts while it settles. -/
theorem At.settle_halts (hm : s.At net₀ m₀) (hw : Network.Wired net₀ width) (hu : net₀.Unused)
    (hrun : Network.settle.run.run s.network = (.error stop, net)) :
    ∃ m, Moment.Reachable net₀ m ∧ m₀.Leads m ∧ m.Halts stop net := by
  obtain ⟨m, hreach, hvia, hstop⟩ :=
    Moment.settle_stops hm.reachable hw hu hm.phase (hm.net ▸ hrun)
  exact ⟨m, hreach, hvia.leads.head (.settle hm.phase), hstop.halts (hreach.sound hw hu) hw⟩

/-- A session halts while it settles or, once it has settled, while its matches are explained. -/
theorem At.explain_halts (hm : s.At net₀ m₀) (hw : Network.Wired net₀ width) (hu : net₀.Unused)
    (hrun : settledAnalyses.run.run s.network = (.error stop, net)) :
    ∃ m, Moment.Reachable net₀ m ∧ m₀.Leads m ∧ m.Halts stop net := by
  rw [settledAnalyses_run] at hrun
  have hgoes := Moment.settle_goes hm.reachable hw hu hm.phase
  unfold Moment.Goes at hgoes
  rw [hm.net] at hgoes
  rcases hsettle : (Network.settle : Run V S Nat).run.run s.network with ⟨stop' | n, net₁⟩ <;>
    rw [hsettle] at hrun hgoes
  · obtain ⟨hstop, rfl⟩ := Prod.mk.inj hrun
    exact hm.settle_halts hw hu (Except.error.inj hstop ▸ hsettle)
  · obtain ⟨m, hreach, rfl, hleads, hidle, -⟩ := hgoes
    obtain ⟨hanalyses, rfl⟩ := Prod.mk.inj hrun
    exact ⟨m, hreach, hleads, Moment.halts_of_analyses hidle hanalyses⟩

/-- The network of a session that is stopped during a request halts at a moment. -/
theorem Request.Stops.halts (h : r.Stops s stop net) (ha : r.Admitted s) (hm : s.At net₀ m₀)
    (hw : Network.Wired net₀ width) (hu : net₀.Unused) :
    ∃ m, Moment.Reachable net₀ m ∧ m₀.Leads m ∧ m.Halts stop net := by
  have hnew : ∀ {a : Fact V}, s.facts.contains a.key = false → s.facts.get? a.key = none := by
    intro a hnew
    rw [Table.contains_eq_isSome] at hnew
    simpa using hnew
  cases r with
  | insertInitial a => exact hm.stage_halts (c := .insert) hw hu (hnew ha.2) h
  | call c =>
      cases c with
      | insert a => exact hm.stage_halts (c := .insert) hw hu (hnew ha.2) h
      | update a =>
          have hthere : (s.facts.get? a.key).isSome := by
            rw [← Table.contains_eq_isSome]
            exact ha.2
          exact hm.stage_halts (c := .update) hw hu (Option.isSome_iff_exists.mp hthere) h
      | retract a =>
          obtain ⟨cell, hcell, hrun⟩ := h
          exact hm.stage_halts (c := .retract) (a := { a with cell }) hw hu ⟨cell, hcell⟩ hrun
      | calculateScore | constraintTotals => exact hm.settle_halts hw hu h
      | constraintMatches | explainScore | indictments => exact hm.explain_halts hw hu h

variable {N : Naming V} {settings : FactorySettings S} {domain : DomainModel V}
  {written : List (Written V S)} {chosen : List Constraint}

/-- A failure blames the node at which the network halts. -/
theorem blames_of_halts (hf : f.ProvidedBy N settings domain written chosen)
    (hcompiled : Network.compile f.graph f.domain = .ok net₀) (hm : Moment.Reachable net₀ m)
    (h : m.Halts stop net) (name : String) : ∃ x : EvaluationFailure,
      net.evaluationError name stop = .evaluation x ∧ x.Blames written net₀ name stop := by
  obtain ⟨-, -, b, ho⟩ := hf.origin
  have hspec := Network.compile_spec hcompiled
  have hlike := (hm.sound (hspec.wired ho.formed) hspec.unused).like
  obtain ⟨a, ha⟩ := h.exists_node
  obtain ⟨a₀, ha₀, -⟩ := hlike.node ha
  rw [Network.evaluationError_congr h.kept.1 h.kept.2, hlike.evaluationError]
  exact hf.blames hcompiled ha₀ name

/-- Whatever a session of a provider has been through and whatever is asked of it, if a fault stops its
network, then the answer names the call, the kind of the node that was at work, the active constraints
that the rows of this node count for, what the node looked at when its turn came, and what was
raised. -/
theorem failures_attributed (hf : f.ProvidedBy N settings domain written chosen) :
    ∃ net₀, Network.compile f.graph f.domain = .ok net₀ ∧ ∀ s, Reached f s → s.poisoned = false →
      ∃ m₀, s.At net₀ m₀ ∧ ∀ r : Request V, r.Attributed s f written net₀ m₀ := by
  obtain ⟨-, -, b, ho⟩ := hf.origin
  obtain ⟨net₀, hcompiled⟩ := Network.compile_ok ho.compilable
  have hspec := Network.compile_spec hcompiled
  have hw := hspec.wired ho.formed
  refine ⟨net₀, hcompiled, fun s hs husable => ?_⟩
  obtain ⟨net₁, hcompiled₁, hdomain, -, m₀, hm₀⟩ := hs.live ho.formed husable
  obtain rfl := Except.ok.inj (hcompiled.symm.trans hcompiled₁)
  refine ⟨m₀, hm₀, fun r => ⟨fun ha stop net hstops => ?_, ?_, ?_⟩⟩
  · obtain ⟨m, hm, hleads, hhalts⟩ := hstops.halts ha hm₀ hw hspec.unused
    obtain ⟨x, hx, hblames⟩ := blames_of_halts hf hcompiled hm hhalts r.callName
    obtain ⟨s', hrun, -⟩ := answer_stops husable ha hstops
    exact ⟨x, s', m, hx ▸ hrun, hleads, hhalts, hblames⟩
  · rintro rfl hmode n net stop net' hsettle hrebuild
    obtain ⟨m, hrebuilding, hstop⟩ := rebuilding_stops hm₀ hw hspec.unused hrebuild
    have hhalts := hstop.halts (hrebuilding.reachable.sound hw hspec.unused) hw
    obtain ⟨x, hx, hblames⟩ :=
      blames_of_halts hf hcompiled hrebuilding.reachable hhalts verification
    have hfresh : Network.compile net.graph s.domain = .ok net₀ := by
      obtain ⟨hc, hsettles, -, -⟩ := hs.settles ho.formed husable hsettle
      obtain rfl := Except.ok.inj (hcompiled.symm.trans hc)
      rw [(hsettles.sound hw hspec.unused).like.graph, hspec.graph, hdomain, hcompiled]
    refine ⟨x, { s with network := net, poisoned := true }, m, ?_, hrebuilding, hhalts, hblames⟩
    unfold Request.answer
    rw [Outcome.run_bind, calculateScore_stops husable hmode hsettle hfresh hrebuild, hx]
  · rintro a e s' rfl hrun facts later tracksMatches hbuild
    exact buildSession_fails hbuild hrun later

end Session

namespace Coin

/-- Coins, pairs of sound coins, and sound coins; the last two share the filter. -/
def guardedProvider : Declaring Coin SimpleScore (List Constraint) := do
  let all ← ConstraintFactory.forEach "coin"
  let sound ← ConstraintFactory.filter all isSound
  let both ← ConstraintFactory.join sound all (.equal worthOf worthOf)
  let c ← ConstraintFactory.constraint both ⟨"purse", "pairs"⟩ SimpleScore.one pairTerms
  let d ← ConstraintFactory.constraint all ⟨"purse", "coins"⟩ SimpleScore.one pairTerms
  let e ← ConstraintFactory.constraint sound ⟨"purse", "sound"⟩ SimpleScore.one pairTerms
  return [e, d, c]

def soundCoins : Query Coin := .filter isSound.run coins

def soundPairs : Query Coin := .join (Joiner.equal worthOf worthOf).compile soundCoins coins

def guardedConstraints (c d e : Constraint) : List (Written Coin SimpleScore) :=
  [⟨c, soundPairs, SimpleScore.one, pairTerms⟩, ⟨d, coins, SimpleScore.one, pairTerms⟩,
    ⟨e, soundCoins, SimpleScore.one, pairTerms⟩]

theorem guardedProvider_provides : Declaring.Provides naming domain [] [] guardedProvider
    fun _ _ written => ∃ c d e, written = guardedConstraints c d e := by
  refine (Declaring.Provides.stream (.forEach "coin") (by simp [StreamCall.operands]) trivial
    trivial).bind ?_
  rintro all _ _ ⟨rfl, rfl⟩
  refine (Declaring.Provides.stream (.filter (all, coins) isSound)
    (by simp [StreamCall.operands, StreamCall.query, coins]) respects trivial).bind ?_
  rintro sound _ _ ⟨rfl, rfl⟩
  refine (Declaring.Provides.stream
    (.join (sound, soundCoins) (all, coins) (.equal worthOf worthOf)) ?_ ⟨respects, respects⟩
    trivial).bind ?_
  · rintro s (_ | ⟨_, _ | ⟨_, ⟨⟩⟩⟩)
    · exact .head _
    · exact .tail _ (.head _)
  rintro both _ _ ⟨rfl, rfl⟩
  refine (Declaring.Provides.constraint (s := (both, soundPairs)) (.head _) _ _ _).bind ?_
  rintro c _ _ ⟨rfl, rfl⟩
  refine (Declaring.Provides.constraint (s := (all, coins)) (.tail _ (.tail _ (.head _))) _ _
    _).bind ?_
  rintro d _ _ ⟨rfl, rfl⟩
  refine (Declaring.Provides.constraint (s := (sound, soundCoins)) (.tail _ (.head _)) _ _ _).bind ?_
  rintro e _ _ ⟨rfl, rfl⟩
  exact .pure ⟨c, d, e, rfl⟩

def guardedFactory : SessionFactory Coin SimpleScore :=
  (SessionFactory.build .default domain guardedProvider).toOption.get (by decide +kernel)

def guardedCompiled : Network Coin SimpleScore :=
  (Network.compile guardedFactory.graph guardedFactory.domain).toOption.get (by decide +kernel)

theorem guardedFactory_provided : ∃ c d e chosen,
    guardedFactory.ProvidedBy naming .default domain (guardedConstraints c d e) chosen := by
  obtain ⟨written, chosen, ⟨c, d, e, rfl⟩, hf⟩ :=
    SessionFactory.ProvidedBy.of_build guardedProvider_provides (Outcome.eq_ok_get _)
  exact ⟨c, d, e, chosen, hf⟩

/-- The network of the factory, with the order of its nodes written out. -/
def guardedNetwork : Network Coin SimpleScore :=
  { guardedCompiled with order := [0, 1, 3, 7, 2, 8, 4, 5, 6] }

theorem guardedNetwork_compiled :
    Network.compile guardedFactory.graph guardedFactory.domain = .ok guardedNetwork := by
  have hranks : guardedCompiled.nodes.toList.map (·.rank) = [0, 1, 2, 1, 3, 4, 5, 1, 2] := by
    decide +kernel
  exact Network.compile_ordered (Outcome.eq_ok_get _) hranks (by decide) (by decide)

/-- A good coin and one without worth, neither of them scored. -/
def guardedSession : Session Coin SimpleScore :=
  .called guardedFactory guardedNetwork [coin 1 5, coin 2 0] []

/-- What scoring the coins comes to: the filter gives up on the one without worth, and the coins
themselves are not concerned. -/
def guardedFailure : EvaluationFailure :=
  ⟨"calculate_score", "filter", ["purse/pairs", "purse/sound"], "[0]",
    .raised "a coin without worth"⟩

end Coin

namespace Session

theorem failures_attributed_coins : ∃ c d e m₀ m stop net s',
    Coin.guardedSession.At Coin.guardedNetwork m₀ ∧
      (Request.call .calculateScore).answer.run.run Coin.guardedSession =
        (.error (.evaluation Coin.guardedFailure), s') ∧ m₀.Leads m ∧ m.Halts stop net ∧
      Coin.guardedFailure.Blames (Coin.guardedConstraints c d e) Coin.guardedNetwork
        "calculate_score" stop := by
  obtain ⟨c, d, e, chosen, hf⟩ := Coin.guardedFactory_provided
  obtain ⟨net₀, hcompiled, hsessions⟩ := failures_attributed hf
  obtain rfl := Except.ok.inj (Coin.guardedNetwork_compiled.symm.trans hcompiled)
  have hreached : Reached Coin.guardedFactory Coin.guardedSession :=
    .built (buildSession_eq Coin.guardedNetwork_compiled (by decide +kernel))
  obtain ⟨m₀, hm₀, hrequests⟩ := hsessions _ hreached (by decide +kernel)
  have hanswer : ((Request.call .calculateScore).answer.run.run Coin.guardedSession).1.map
      (fun _ => ()) = .error (.evaluation Coin.guardedFailure) := by decide +kernel
  have hfails : (Network.settle.run.run Coin.guardedSession.network).1.toOption.isSome = false := by
    decide +kernel
  rcases hrun : (Network.settle : Run Coin SimpleScore Nat).run.run Coin.guardedSession.network with
    ⟨stop | n, net⟩
  · obtain ⟨x, s', m, hcall, hleads, hhalts, hblames⟩ :=
      (hrequests (.call .calculateScore)).stopped trivial stop net hrun
    rw [hcall] at hanswer
    obtain rfl := EngineError.evaluation.inj (Except.error.inj hanswer)
    exact ⟨c, d, e, m₀, m, stop, net, s', hm₀, hcall, hleads, hhalts, hblames⟩
  · rw [hrun] at hfails
    cases hfails

end Session

end ConstraintScoring
