import ConstraintScoring.Proofs.Network.Accounting
import ConstraintScoring.Proofs.Session.Relational

/-!
# How a settled session accounts for its score

Once a session has settled, the impacts that count for an active constraint are those of the tuples
which its node scores at the moment, and the totals, the score and everything that is reported add up
to them.
-/

namespace ConstraintScoring

variable {V S : Type} [Cell V] [Score S]

namespace Network

/-- The total of a constraint is that of the impacts of the tuples that its node scores. -/
def CountsAll (net : Network V S) (i : Nat) (terms : ConstraintTerms V S) (weight : S)
    (total : ConstraintTotal S) : Prop :=
  ∃ id n p, net.scoreNode? i = some (id, n) ∧ net.Carries id p ∧
    ∃ impacts : List (TupleId × S), (impacts.map (·.1)).Perm (net.outs p) ∧
      (∀ e ∈ impacts, terms.Counts weight (net.arena.row e.1) e.2) ∧
      Score.level total.score = (impacts.map fun e => Score.level e.2).sum ∧
      total.matchCount = impacts.length

end Network

variable [Std.TransOrd V] [LawfulScore S]

namespace SessionFactory.Settles

variable {N : Naming V} {settings : FactorySettings S} {written : List (Written V S)}
  {chosen : List Constraint} {f : SessionFactory V S} {b : GraphBuilder V S}
  {facts : Table (FactKey V) V} {net : Network V S} {id p : NodeId} {n : ScoreNode V S} {i : Nat}

/-- A node has recorded the impacts of the tuples that it scores, and of no others. -/
theorem impacts (h : f.Settles facts net) (hf : Formed f.graph.declarations)
    (hn : net.kindAt id = .score n) (hp : net.Carries id p) :
    (n.impacts.entries.map (·.1)).Perm (net.outs p) ∧
      ∀ e ∈ n.impacts.entries, n.impactOf (net.arena.row e.1) = .ok e.2 := by
  obtain ⟨hcompiled, hm, hidle, rfl⟩ := h
  have hspec := Network.compile_spec hcompiled
  have hw := hspec.wired hf
  have hsound := hm.sound hw hspec.unused
  have hwm := hw.like hsound.like
  have hs := hidle.settledTo
  have hinformed := hsound.informed hwm hs.order hs.done
    (Or.inl (hwm.mem_order id (Network.lt_of_kindAt hn rfl)))
  have hbooks := hsound.books id
  rw [hn] at hbooks
  cases hp with
  | own _ hscore => exact absurd hn (hscore n)
  | bridge hbridge =>
      unfold Network.IsBridge at hbridge
      rw [hn] at hbridge
      cases hbridge
  | scored _ hmaker hroute =>
      have heq := Moment.inputs_eq hwm (Bool.eq_false_iff.mpr hmaker) hroute
      have hdistinct := hbooks.distinct
      have hentry : ∀ e ∈ n.impacts.entries, n.impacts.get? e.1 = some e.2 := fun e he =>
        hdistinct.get?_of_mem he BEq.rfl
      have hiff : ∀ t, (∃ impact, n.impacts.get? t = some impact) ↔ t ∈ _ := fun t =>
        (hbooks.known_iff t).trans (hinformed.known_iff .left t)
      refine ⟨(List.perm_ext_iff_of_nodup ?_ (heq ▸ hinformed.nodup .left)).mpr fun t => ?_,
        fun e he => ?_⟩
      · exact List.pairwise_map.mpr (hdistinct.imp fun hne => by simpa using hne)
      · rw [← heq, ← hiff, List.mem_map]
        constructor
        · rintro ⟨e, he, rfl⟩
          exact ⟨e.2, hentry e he⟩
        · rintro ⟨impact, himpact⟩
          obtain ⟨k, hk, hkt⟩ := Table.mem_of_get? himpact
          exact ⟨(k, impact), hk, eq_of_beq hkt⟩
      · obtain ⟨impact, himpact, hof⟩ := hbooks.fresh e.1
          (hinformed.fresh .left e.1 ((hiff e.1).mp ⟨e.2, hentry e he⟩))
        rw [hof, Option.some.inj (himpact.symm.trans (hentry e he))]

/-- The total of an active constraint is that of the tuples which it scores. -/
theorem countsAll (h : f.Settles facts net) (ho : Origin N settings written chosen f b)
    (hi : i ∈ f.graph.activeConstraints) : ∃ w total, written[i]? = some w ∧
      net.ledger.totals[i]? = some total ∧ total.ref = w.constraint.ref ∧
      net.CountsAll i w.terms (settings.overrides.effective w.constraint.ref w.weight) total := by
  obtain ⟨id, n, a, w, total, hn, hni, hnode, ha, hw, himpact, hweigher, hweight, -, htotal, href⟩ :=
    h.scoreNode ho hi
  obtain ⟨net₀, hcompiled⟩ := Network.compile_ok ho.compilable
  obtain ⟨a₀, ha₀, hdecl, -⟩ := (h.like ho.formed hcompiled).node ha
  obtain ⟨d, hd, -⟩ := (Network.compile_spec hcompiled).candidate ha₀
  obtain ⟨q, hq⟩ := ho.formed.unfolds a.decl (hdecl ▸ lt_of_declaredIn hd)
  obtain ⟨p, -, hcarries, -⟩ := h.carried ho.formed ha hq
  obtain ⟨hperm, himpacts⟩ := h.impacts ho.formed hn hcarries
  obtain ⟨hscore, hcount⟩ := (h.balances ho.formed).total i total htotal
  have hbag : net.bags i = n.bag := hni ▸ (h.scoring ho).bags_eq hn
  refine ⟨w, total, hw, htotal, href, id, n, p, hnode, hcarries, n.impacts.entries, hperm,
    fun e he => ?_, ?_, ?_⟩
  · rw [← hweight]
    exact ScoreNode.counts himpact hweigher (himpacts e he)
  · rw [hscore, hbag]
    unfold Ledger.worth ScoreNode.bag Table.values
    rw [Multiset.map_coe, Multiset.sum_coe, List.map_map]
    rfl
  · rw [hcount, hbag]
    exact List.length_map _

/-- The score is the sum of the totals of the active constraints. -/
theorem score_eq (h : f.Settles facts net) (ho : Origin N settings written chosen f b) :
    Score.level net.score = (net.totals.map fun total => Score.level total.score).sum := by
  unfold Network.totals
  rw [h.graph_eq ho.formed]
  refine (h.scoring ho).score_eq (h.balances ho.formed)
    (ho.frozen.active_sorted.imp Nat.ne_of_lt) fun i hi => ?_
  obtain ⟨w, total, -, htotal, -⟩ := h.countsAll ho hi
  exact ⟨total, htotal⟩

end SessionFactory.Settles

namespace Session

section Calls

variable {s s' : Session V S}

omit [Std.TransOrd V] [LawfulScore S] in
/-- Matches are those of the network once it was settled. -/
theorem matches_of_run {analyses : List (ConstraintAnalysis S)}
    (h : constraintMatches.run.run s = (.ok analyses, s')) :
    ∃ k, Network.settle.run.run s.network = (.ok k, s'.network) ∧
      s'.network.analyses = .ok analyses := by
  unfold constraintMatches at h
  rw [checkUsable_passes (usable_of_run h nofun)] at h
  change (if s.tracksMatches then guarded "constraint_matches" settledAnalyses
    else throw .matchTrackingDisabled : SessionCall V S _).run.run s = _ at h
  split at h
  · rw [guarded_run, settledAnalyses_run] at h
    rcases hsettle : Network.settle.run.run s.network with ⟨fault | k, net⟩ <;>
      simp only [hsettle] at h
    · cases h
    · cases hanalyses : net.analyses <;> simp only [hanalyses] at h <;> cases h
      exact ⟨k, rfl, hanalyses⟩
  · cases h

omit [Std.TransOrd V] [LawfulScore S] in
/-- An explanation has the matches and the score of the network once it was settled. -/
theorem explanation_of_run {x : ScoreExplanation S} (h : explainScore.run.run s = (.ok x, s')) :
    constraintMatches.run.run s = (.ok x.constraints, s') ∧ x.score = s'.network.score := by
  unfold explainScore at h
  rw [Outcome.run_bind] at h
  rcases hrun : constraintMatches.run.run s with ⟨e | analyses, s₁⟩ <;> rw [hrun] at h <;> cases h
  exact ⟨rfl, rfl⟩

end Calls

variable {N : Naming V} {settings : FactorySettings S} {domain : DomainModel V}
  {written : List (Written V S)} {chosen : List Constraint} {f : SessionFactory V S}
  {s : Session V S} {net : Network V S} {k : Nat}

/-- When a session has settled, the total of every active constraint is that of the impacts of the
tuples which its node scores, all other totals are zero, and the score is the sum of the totals. The
matches that the session reports add up to the totals, and these to the score. -/
theorem settled_accounts (hf : f.ProvidedBy N settings domain written chosen) (hs : Reached f s)
    (husable : s.poisoned = false) (hrun : Network.settle.run.run s.network = (.ok k, net)) :
    (∀ i ∈ f.graph.activeConstraints, ∃ w total, written[i]? = some w ∧
      net.ledger.totals[i]? = some total ∧ total.ref = w.constraint.ref ∧
      net.CountsAll i w.terms (settings.overrides.effective w.constraint.ref w.weight) total) ∧
    (∀ (i : Nat) total, i ∉ f.graph.activeConstraints → net.ledger.totals[i]? = some total →
      total.score = Score.zero ∧ total.matchCount = 0) ∧
    Score.level net.score = (net.totals.map fun total => Score.level total.score).sum ∧
    (∀ analyses s', constraintMatches.run.run s = (.ok analyses, s') →
      s'.network = net ∧ List.Forall₂ ConstraintAnalysis.AddsUpTo analyses net.totals) ∧
    ∀ x s', explainScore.run.run s = (.ok x, s') → s'.network = net ∧ x.score = net.score ∧
      List.Forall₂ ConstraintAnalysis.AddsUpTo x.constraints net.totals ∧
      Score.level x.score = (x.constraints.map fun a => Score.level a.score).sum := by
  obtain ⟨-, -, b, ho⟩ := hf.origin
  have hsettles := hs.settles ho.formed husable hrun
  have hgraph := hsettles.graph_eq ho.formed
  have hscoring := hsettles.scoring ho
  have hbalances := hsettles.balances ho.formed
  have hcounts := fun i hi => hsettles.countsAll ho (i := i) hi
  have hactive : net.totals = f.graph.activeConstraints.filterMap fun i => net.ledger.totals[i]? := by
    unfold Network.totals
    rw [hgraph]
  have hsum := hsettles.score_eq ho
  have hmatches : ∀ analyses s', constraintMatches.run.run s = (.ok analyses, s') →
      s'.network = net ∧ List.Forall₂ ConstraintAnalysis.AddsUpTo analyses net.totals := by
    intro analyses s' h
    obtain ⟨k', hrun', hanalyses⟩ := matches_of_run h
    obtain ⟨-, rfl⟩ := Prod.mk.inj (hrun.symm.trans hrun')
    refine ⟨rfl, ?_⟩
    rw [hactive]
    refine hscoring.analyses_addUp hbalances (fun i hi => ⟨hi, ?_⟩) (hgraph ▸ hanalyses)
    obtain ⟨w, total, hw, htotal, href, -⟩ := hcounts i hi
    obtain ⟨w', c, hw', hc, hcref, -⟩ := ho.constraint hi
    obtain rfl := Option.some.inj (hw.symm.trans hw')
    exact ⟨c, total, hgraph ▸ hc, htotal, hcref.trans href.symm⟩
  refine ⟨hcounts, fun i total hi htotal => hscoring.total_zero hbalances hi htotal, hsum, hmatches,
    fun x s' h => ?_⟩
  obtain ⟨hanswer, hscore⟩ := explanation_of_run h
  obtain ⟨hnet, hadds⟩ := hmatches _ _ hanswer
  refine ⟨hnet, hscore.trans (hnet ▸ rfl), hadds, ?_⟩
  have hsame : x.constraints.map (fun a => Score.level a.score) =
      net.totals.map fun total => Score.level total.score := by
    refine (congrFun₂ List.forall₂_eq_eq_eq _ _).mp ?_
    rw [List.forall₂_map_left_iff, List.forall₂_map_right_iff]
    exact hadds.imp fun a total ha => congrArg Score.level ha.score
  rw [hscore, hnet, hsum, hsame]

/-- The totals of the changed coins add up to their score. -/
theorem settled_accounts_coins : ∃ k net,
    Network.settle.run.run Coin.changed.network = (.ok k, net) ∧
      Score.level net.score = (net.totals.map fun total => Score.level total.score).sum := by
  obtain ⟨c, d, chosen, hf⟩ := Coin.factory_provided
  obtain ⟨hs, husable⟩ := Coin.changed_reached
  obtain ⟨k, net, hrun⟩ := Coin.changed_ran.2
  obtain ⟨-, -, hsum, -⟩ := settled_accounts hf hs husable hrun
  exact ⟨k, net, hrun, hsum⟩

end Session

end ConstraintScoring
