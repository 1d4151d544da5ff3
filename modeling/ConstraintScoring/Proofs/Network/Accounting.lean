import ConstraintScoring.Proofs.Network.Scoring
import ConstraintScoring.Stream.Factory

/-!
# How a network accounts for its score

Every impact is the weight of its constraint times that of the match, negated for a penalty. The
total of a constraint is the sum of the impacts of its matches, the score is the sum of the totals,
and what is reported of each constraint adds up to its total.
-/

namespace ConstraintScoring

variable {V S : Type} [Score S]

/-- What a row counts for under the terms of a constraint with the given weight. -/
def ConstraintTerms.Counts (terms : ConstraintTerms V S) (weight : S) (row : Row V) (impact : S) :
    Prop :=
  ∃ m, terms.weigher.elim (.ok .one) (· row) = .ok m ∧
    Score.level impact = terms.impact.sign • Score.level (Score.timesWeight weight m)

theorem ScoreNode.counts [LawfulScore S] {n : ScoreNode V S} {terms : ConstraintTerms V S} {row : Row V}
    {impact : S} (himpact : n.impact = terms.impact) (hweigher : n.weigher = terms.weigher)
    (h : n.impactOf row = .ok impact) : terms.Counts n.weight row impact := by
  obtain ⟨m, hm, h⟩ := Outcome.bind_eq_ok.mp h
  have hsigned := asFault_eq_ok.mp h
  refine ⟨m, ?_, ?_⟩
  · unfold matchWeight at hm
    rw [hweigher] at hm
    cases hw : terms.weigher <;> rw [hw] at hm <;> exact hm
  · rw [himpact] at hsigned
    cases hi : terms.impact with
    | penalty =>
        rw [hi] at hsigned
        exact (Score.level_neg hsigned).trans (neg_one_zsmul _).symm
    | reward =>
        rw [hi] at hsigned
        rw [Except.ok.inj hsigned]
        exact (one_zsmul _).symm

/-- The score and the number of matches of an analysis are those of a total, and its matches add up
to them. -/
structure ConstraintAnalysis.AddsUpTo (a : ConstraintAnalysis S) (total : ConstraintTotal S) : Prop where
  ref : a.constraint = total.ref
  score : a.score = total.score
  matchCount : a.matchCount = total.matchCount
  sum : Score.level a.score = (a.matched.map fun m => Score.level m.score).sum

namespace Network

variable {g : DeclarationGraph V S} {net : Network V S} {id : NodeId} {n : ScoreNode V S} {i : Nat}
  {is : List Nat} {total : ConstraintTotal S}

omit [Score S] in
/-- Every constraint with a total is listed with its total. -/
theorem forall₂_totals (h : ∀ i ∈ is, ∃ total, net.ledger.totals[i]? = some total) :
    List.Forall₂ (fun (i : Nat) total => net.ledger.totals[i]? = some total) is
      (is.filterMap fun i => net.ledger.totals[i]?) := by
  induction is with
  | nil => exact .nil
  | cons i is ih =>
      obtain ⟨total, htotal⟩ := h i List.mem_cons_self
      rw [List.filterMap_cons_some htotal]
      exact .cons htotal (ih fun i hi => h i (List.mem_cons_of_mem _ hi))

/-- Nothing is counted for a constraint that is not active. -/
theorem Scoring.total_zero [LawfulScore S] (h : Scoring g net) (hb : net.ledger.Balances net.bags)
    (hi : i ∉ g.activeConstraints) (ht : net.ledger.totals[i]? = some total) :
    total.score = Score.zero ∧ total.matchCount = 0 := by
  obtain ⟨hscore, hcount⟩ := hb.total i total ht
  rw [h.bags_eq_zero hi] at hscore hcount
  exact ⟨Score.level_inj (hscore.trans Score.level_zero.symm), hcount⟩

/-- The score is the sum of the totals of the active constraints. -/
theorem Scoring.score_eq (h : Scoring g net) (hb : net.ledger.Balances net.bags)
    (hn : g.activeConstraints.Nodup)
    (ht : ∀ i ∈ g.activeConstraints, ∃ total, net.ledger.totals[i]? = some total) :
    Score.level net.ledger.score = ((g.activeConstraints.filterMap fun i => net.ledger.totals[i]?).map
      fun total => Score.level total.score).sum := by
  have htotals : (g.activeConstraints.filterMap fun i => net.ledger.totals[i]?).map
      (fun total => Score.level total.score) =
        g.activeConstraints.map fun i => Ledger.worth (net.bags i) := by
    have hworth := (forall₂_totals ht).imp fun i total htotal => (hb.total i total htotal).1
    refine (congrFun₂ List.forall₂_eq_eq_eq _ _).mp ?_
    rw [List.forall₂_map_left_iff, List.forall₂_map_right_iff]
    exact hworth.flip
  rw [hb.score, htotals, ← List.sum_toFinset _ hn]
  refine (Finset.sum_subset (fun i hi => ?_) fun i _ hi => ?_).symm
  · obtain ⟨total, htotal⟩ := ht i (List.mem_toFinset.mp hi)
    exact Finset.mem_range.mpr (Array.getElem?_eq_some_iff.mp htotal).1
  · rw [h.bags_eq_zero fun hmem => hi (List.mem_toFinset.mpr hmem)]
    rfl

section Reports

variable [Cell V] {c : ConstraintDef V S} {live : List (TupleId × S)}
  {a : ConstraintAnalysis S}

omit [Score S] in
theorem explainMatch_score {row : Row V} {impact : S} {m : ConstraintMatch S}
    (h : explainMatch c row impact = .ok m) : m.score = impact := by
  unfold explainMatch at h
  simp only at h
  split at h <;> obtain ⟨justification, -, h⟩ := Outcome.bind_eq_ok.mp h
  all_goals
    split at h <;> obtain ⟨indicted, -, h⟩ := Outcome.bind_eq_ok.mp h <;> rw [← Except.ok.inj h]

omit [Score S] in
theorem explainAll_scores {ms : List (ConstraintMatch S)} (h : net.explainAll id c live = .ok ms) :
    ms.map (·.score) = live.map (·.2) := by
  induction live generalizing ms with
  | nil =>
      obtain rfl := Except.ok.inj h
      rfl
  | cons e live ih =>
      unfold explainAll at h
      split at h
      · cases h
      · rename_i m hm
        obtain ⟨rest, hrest, h⟩ := Outcome.bind_eq_ok.mp h
        obtain rfl := Except.ok.inj h
        rw [List.map_cons, List.map_cons, ih hrest, explainMatch_score hm]

/-- What is reported of a constraint adds up to its total. -/
theorem analysisOf_addsUpTo (hb : net.ledger.Balances net.bags) (hbag : net.bags i = n.bag)
    (ht : net.ledger.totals[i]? = some total) (href : c.ref = total.ref)
    (h : net.analysisOf id n c total = .ok a) : a.AddsUpTo total := by
  obtain ⟨ms, hms, h⟩ := Outcome.bind_eq_ok.mp h
  obtain rfl := Except.ok.inj h
  obtain ⟨hscore, hcount⟩ := hb.total i total ht
  have hvalues : (ms.map (·.score) : Multiset S) = n.bag := by
    rw [explainAll_scores hms]
    exact Multiset.coe_eq_coe.mpr ((List.mergeSort_perm _ _).map _)
  rw [hbag, ← hvalues] at hscore hcount
  refine ⟨href, rfl, ?_, ?_⟩
  · rw [hcount, Multiset.coe_card, List.length_map]
    rfl
  · refine hscore.trans ?_
    unfold Ledger.worth
    rw [Multiset.map_coe, Multiset.sum_coe, List.map_map]
    rfl

/-- What is reported of the active constraints adds up to their totals. -/
theorem Scoring.analyses_addUp (h : Scoring g net) (hb : net.ledger.Balances net.bags)
    (his : ∀ i ∈ is, i ∈ g.activeConstraints ∧ ∃ c total, net.graph.constraints[i]? = some c ∧
      net.ledger.totals[i]? = some total ∧ c.ref = total.ref)
    {as : List (ConstraintAnalysis S)} (has : net.analysesFrom is = .ok as) :
    List.Forall₂ ConstraintAnalysis.AddsUpTo as (is.filterMap fun i => net.ledger.totals[i]?) := by
  induction is generalizing as with
  | nil =>
      obtain rfl := Except.ok.inj has
      exact .nil
  | cons i is ih =>
      obtain ⟨hi, c, total, hc, ht, href⟩ := his i List.mem_cons_self
      obtain ⟨id, n, hn, rfl⟩ := h.node i hi
      unfold analysesFrom at has
      rw [h.scoreNode?_eq hn, hc, ht] at has
      obtain ⟨a, ha, has⟩ := Outcome.bind_eq_ok.mp has
      obtain ⟨rest, hrest, has⟩ := Outcome.bind_eq_ok.mp has
      obtain rfl := Except.ok.inj has
      rw [List.filterMap_cons_some ht]
      refine .cons (analysisOf_addsUpTo hb (h.bags_eq hn) ht href ha) ?_
      exact ih (fun i hi => his i (List.mem_cons_of_mem _ hi)) hrest

end Reports

end Network

end ConstraintScoring
