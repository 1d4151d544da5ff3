import ConstraintScoring.Proofs.Session.Providers

/-!
# Requests to a session

Whatever is asked of a session is refused, which leaves the session as it was, or is answered, or
is stopped by a fault of the network, which poisons the session. A poisoned session refuses
whatever is asked of it from then on.
-/

namespace ConstraintScoring

variable {V S α β : Type}

namespace EngineError

/-- Whether a call that ends so was refused before it did anything. -/
def isRefusal : EngineError → Bool
  | domainModel _ | duplicateFact _ | unknownFact _ | matchTrackingDisabled => true
  | _ => false

def isEvaluation : EngineError → Bool
  | evaluation _ => true
  | _ => false

theorem isEvaluation_iff {e : EngineError} :
    e.isEvaluation ↔ ∃ failure, e = .evaluation failure := by
  cases e <;> simp [isEvaluation]

end EngineError

namespace Session

/-- What can be asked of a session: a call, or to take in a fact that it is built with. -/
inductive Request (V : Type) where
  | call (c : Call V)
  | insertInitial (f : Fact V)

/-- What a request is answered with. -/
inductive Answer (S : Type) where
  | done
  | score (score : S)
  | totals (totals : List (ConstraintTotal S))
  | analyses (analyses : List (ConstraintAnalysis S))
  | explanation (explanation : ScoreExplanation S)
  | indictments (map : Except Overflow (IndictmentMap S))

namespace Request

variable [Cell V]

def answer [Score S] : Request V → SessionCall V S (Answer S)
  | call (.insert f) => do Session.insert f; return .done
  | call (.update f) => do Session.update f; return .done
  | call (.retract f) => do Session.retract f; return .done
  | call .calculateScore => do return .score (← calculateScore)
  | call .constraintTotals => do return .totals (← constraintTotals)
  | call .constraintMatches => do return .analyses (← constraintMatches)
  | call .explainScore => do return .explanation (← explainScore)
  | call .indictments => do return .indictments (← Session.indictments)
  | insertInitial f => do addFact describeInitial f; return .done

/-- Whether the request passes the checks that come before the network is put to work. -/
def Admitted (s : Session V S) : Request V → Prop
  | call (.insert f) | insertInitial f =>
      (s.domain.class? f.type).isSome ∧ s.facts.contains f.key = false
  | call (.update f) | call (.retract f) =>
      (s.domain.class? f.type).isSome ∧ s.facts.contains f.key = true
  | call .constraintMatches | call .explainScore | call .indictments => s.tracksMatches = true
  | call .calculateScore | call .constraintTotals => True

/-- The name under which the network is put to work. -/
def callName : Request V → String
  | call (.insert _) | insertInitial _ => "insert"
  | call (.update _) => "update"
  | call (.retract _) => "retract"
  | call .calculateScore => "calculate_score"
  | call .constraintTotals => "constraint_totals"
  | call .constraintMatches | call .explainScore | call .indictments => "constraint_matches"

/-- A fault stops the network while it works on the request, and leaves it as `net`. -/
def Stops [Score S] (s : Session V S) (fault : NetworkFault) (net : Network V S) : Request V → Prop
  | call (.insert f) | insertInitial f =>
      (Network.insertFact f).run.run s.network = (.error fault, net)
  | call (.update f) => (Network.updateFact f).run.run s.network = (.error fault, net)
  | call (.retract f) => ∃ cell, s.facts.get? f.key = some cell ∧
      (Network.retractFact { f with cell }).run.run s.network = (.error fault, net)
  | call .calculateScore | call .constraintTotals =>
      Network.settle.run.run s.network = (.error fault, net)
  | call .constraintMatches | call .explainScore | call .indictments =>
      settledAnalyses.run.run s.network = (.error fault, net)

end Request

variable {s s' : Session V S} {e : EngineError}

/-- A request was refused and changed nothing, or a fault during it poisoned the session. -/
def Declined (s : Session V S) (e : EngineError) (s' : Session V S) : Prop :=
  e.isRefusal ∧ s' = s ∨ e.isEvaluation ∧ s'.poisoned

theorem guarded_declines {call : String} {work : Run V S α} {s₀ : Session V S}
    (hs : s.poisoned = false) : (guarded call work).Ensures s
      (fun _ s' => s'.poisoned = false) (Declined s₀) := by
  unfold SessionCall.Ensures
  rw [guarded_run]
  rcases work.run.run s.network with ⟨fault | a, net⟩
  · exact Or.inr ⟨rfl, rfl⟩
  · exact hs

theorem checkKnown_declines {type : String} :
    (checkKnown type : SessionCall V S Unit).Ensures s (fun _ s' => s' = s) (Declined s) := by
  unfold checkKnown
  refine .get_bind ?_
  split
  · exact .of_pure rfl
  · exact .of_throw (Or.inl ⟨rfl, rfl⟩)

theorem checkKnown_passes {type : String} (h : (s.domain.class? type).isSome)
    (next : SessionCall V S α) :
    (checkKnown type >>= fun _ => next).run.run s = next.run.run s := by
  obtain ⟨c, hc⟩ := Option.isSome_iff_exists.mp h
  have hpassed : (checkKnown type : SessionCall V S Unit).run.run s = (.ok (), s) := by
    unfold checkKnown
    rw [Outcome.run_get_bind, hc]
    rfl
  rw [Outcome.run_bind, hpassed]

/-- Work that is stopped poisons the session, whatever was to follow. -/
theorem guarded_stops {call : String} {work : Run V S α} {fault : NetworkFault} {net : Network V S}
    (h : work.run.run s.network = (.error fault, net)) (next : α → SessionCall V S β) :
    (guarded call work >>= next).run.run s = (.error (net.evaluationError call fault),
      { s with network := net, poisoned := true }) := by
  rw [Outcome.run_bind, guarded_run, h]

section

variable [Cell V]

theorem addFact_declines {description : Fact V → String} {f : Fact V} (hs : s.poisoned = false) :
    (addFact description f : SessionCall V S Unit).Ensures s (fun _ s' => s'.poisoned = false)
      (Declined s) := by
  unfold addFact
  refine (checkUsable_ensures hs).bind ?_
  rintro _ _ rfl
  refine checkKnown_declines.bind ?_
  rintro _ s rfl
  refine .get_bind ?_
  split
  · exact .of_throw (Or.inl ⟨rfl, rfl⟩)
  · exact (guarded_declines hs).bind fun _ _ hs' => hs'

theorem update_declines {f : Fact V} (hs : s.poisoned = false) :
    (update f : SessionCall V S Unit).Ensures s (fun _ s' => s'.poisoned = false) (Declined s) := by
  unfold update
  refine (checkUsable_ensures hs).bind ?_
  rintro _ _ rfl
  refine checkKnown_declines.bind ?_
  rintro _ s rfl
  refine .get_bind ?_
  split
  · exact (guarded_declines hs).bind fun _ _ hs' => hs'
  · exact .of_throw (Or.inl ⟨rfl, rfl⟩)

theorem retract_declines {f : Fact V} (hs : s.poisoned = false) :
    (retract f : SessionCall V S Unit).Ensures s (fun _ s' => s'.poisoned = false) (Declined s) := by
  unfold retract
  refine (checkUsable_ensures hs).bind ?_
  rintro _ _ rfl
  refine checkKnown_declines.bind ?_
  rintro _ s rfl
  refine .get_bind ?_
  split
  · exact .of_throw (Or.inl ⟨rfl, rfl⟩)
  · exact guarded_declines (s := { s with facts := s.facts.erase f.key }) hs

end

variable [Cell V] [Score S]

theorem constraintMatches_declines (hs : s.poisoned = false) :
    (constraintMatches : SessionCall V S _).Ensures s (fun _ s' => s'.poisoned = false)
      (Declined s) := by
  unfold constraintMatches
  refine (checkUsable_ensures hs).bind ?_
  rintro _ s rfl
  refine .get_bind ?_
  split
  · exact guarded_declines hs
  · exact .of_throw (Or.inl ⟨rfl, rfl⟩)

theorem constraintTotals_declines (hs : s.poisoned = false) :
    (constraintTotals : SessionCall V S _).Ensures s (fun _ s' => s'.poisoned = false)
      (Declined s) := by
  unfold constraintTotals
  refine (checkUsable_ensures hs).bind ?_
  rintro _ s rfl
  exact (guarded_declines hs).bind fun _ _ hs' => .get_bind (.of_pure hs')

theorem answer_declines {r : Request V} (hs : s.poisoned = false)
    (hr : r ≠ .call .calculateScore) :
    r.answer.Ensures s (fun _ s' => s'.poisoned = false) (Declined s) := by
  have hmatches := constraintMatches_declines hs
  cases r with
  | insertInitial f => exact (addFact_declines hs).bind fun _ _ hs' => .of_pure hs'
  | call c =>
      cases c with
      | insert f => exact (addFact_declines hs).bind fun _ _ hs' => .of_pure hs'
      | update f => exact (update_declines hs).bind fun _ _ hs' => .of_pure hs'
      | retract f => exact (retract_declines hs).bind fun _ _ hs' => .of_pure hs'
      | calculateScore => exact absurd rfl hr
      | constraintTotals => exact (constraintTotals_declines hs).bind fun _ _ hs' => .of_pure hs'
      | constraintMatches => exact hmatches.bind fun _ _ hs' => .of_pure hs'
      | explainScore =>
          refine SessionCall.Ensures.bind ?_ fun _ _ hs' => .of_pure hs'
          exact hmatches.bind fun _ _ hs' => .get_bind (.of_pure hs')
      | indictments =>
          refine SessionCall.Ensures.bind ?_ fun _ _ hs' => .of_pure hs'
          exact hmatches.bind fun _ _ hs' => .of_pure hs'

/-- Scoring the facts anew leaves the session as it is unless a fault stops it. -/
theorem rebuiltScore_keeps {x : Except EngineError S} (h : rebuiltScore.run.run s = (x, s')) :
    s' = s ∨ ∃ failure, x = .error (.evaluation failure) := by
  rw [rebuiltScore_run] at h
  split at h
  · exact Or.inl (Prod.mk.inj h).2.symm
  · split at h
    · exact Or.inl (Prod.mk.inj h).2.symm
    · exact Or.inr ⟨_, (Prod.mk.inj h).1.symm⟩

/-- A score that cannot be had poisons the session only if a fault was the reason. -/
theorem calculateScore_poisons (hs : s.poisoned = false) {x : Except EngineError S}
    (h : calculateScore.run.run s = (x, s')) (hs' : s'.poisoned = true) :
    ∃ failure, x = .error (.evaluation failure) := by
  have husable : ∀ {net : Network V S}, s' ≠ { s with network := net } := by
    rintro net rfl
    rw [hs] at hs'
    cases hs'
  rw [calculateScore_run hs] at h
  split at h
  · exact ⟨_, (Prod.mk.inj h).1.symm⟩
  · split at h
    · split at h
      · rename_i hrebuilt
        rcases rebuiltScore_keeps hrebuilt with hkept | ⟨_, hfailed⟩
        · rw [hkept] at h
          split at h <;> exact absurd (Prod.mk.inj h).2.symm husable
        · cases hfailed
      · rename_i hrebuilt
        obtain ⟨rfl, rfl⟩ := Prod.mk.inj h
        rcases rebuiltScore_keeps hrebuilt with hkept | ⟨failure, hfailed⟩
        · exact absurd hkept husable
        · exact ⟨failure, congrArg Except.error (Except.error.inj hfailed)⟩
    · exact absurd (Prod.mk.inj h).2.symm husable

section Stopped

variable {fault : NetworkFault} {net : Network V S}

omit [Score S] in
theorem addFact_stops {description : Fact V → String} {f : Fact V}
    {next : Unit → SessionCall V S α} (hs : s.poisoned = false)
    (ha : (s.domain.class? f.type).isSome ∧ s.facts.contains f.key = false)
    (h : (Network.insertFact f).run.run s.network = (.error fault, net)) :
    (addFact description f >>= next).run.run s = (.error (net.evaluationError "insert" fault),
      { s with network := net, poisoned := true }) := by
  unfold addFact
  rw [Outcome.run_bind, checkUsable_passes hs, checkKnown_passes ha.1, Outcome.run_get_bind, ha.2,
    if_neg nofun, guarded_stops h]

theorem constraintMatches_stops {next : List (ConstraintAnalysis S) → SessionCall V S α}
    (hs : s.poisoned = false) (htracks : s.tracksMatches = true)
    (h : settledAnalyses.run.run s.network = (.error fault, net)) :
    (constraintMatches >>= next).run.run s =
      (.error (net.evaluationError "constraint_matches" fault),
        { s with network := net, poisoned := true }) := by
  unfold constraintMatches
  rw [Outcome.run_bind, checkUsable_passes hs, Outcome.run_get_bind, if_pos htracks, guarded_run, h]

/-- A request whose work is stopped is answered with the fault and poisons the session. -/
theorem answer_stops {r : Request V} (hs : s.poisoned = false) (ha : r.Admitted s)
    (h : r.Stops s fault net) : ∃ s', r.answer.run.run s =
      (.error (net.evaluationError r.callName fault), s') ∧
      s'.poisoned = true ∧ s'.network = net := by
  cases r with
  | insertInitial f => exact ⟨_, addFact_stops hs ha h, rfl, rfl⟩
  | call c =>
      cases c with
      | insert f => exact ⟨_, addFact_stops hs ha h, rfl, rfl⟩
      | update f =>
          refine ⟨{ s with network := net, poisoned := true }, ?_, rfl, rfl⟩
          unfold Request.answer update
          rw [Outcome.run_bind, checkUsable_passes hs, checkKnown_passes ha.1,
            Outcome.run_get_bind, if_pos ha.2, guarded_stops h]
          rfl
      | retract f =>
          obtain ⟨cell, hcell, hwork⟩ := h
          refine ⟨{ s with facts := s.facts.erase f.key, network := net, poisoned := true }, ?_,
            rfl, rfl⟩
          have herased : (retract f).run.run s =
              (guarded "retract" (Network.retractFact { f with cell })).run.run
                { s with facts := s.facts.erase f.key } := by
            unfold retract
            rw [checkUsable_passes hs, checkKnown_passes ha.1, Outcome.run_get_bind, hcell]
            rfl
          unfold Request.answer
          rw [Outcome.run_bind, herased, guarded_run]
          simp only [hwork]
          rfl
      | calculateScore =>
          refine ⟨{ s with network := net, poisoned := true }, ?_, rfl, rfl⟩
          unfold Request.answer
          rw [Outcome.run_bind, calculateScore_run hs, h]
          rfl
      | constraintTotals =>
          refine ⟨{ s with network := net, poisoned := true }, ?_, rfl, rfl⟩
          unfold Request.answer constraintTotals
          rw [Outcome.run_bind, checkUsable_passes hs, guarded_stops h]
          rfl
      | constraintMatches => exact ⟨_, constraintMatches_stops hs ha h, rfl, rfl⟩
      | explainScore =>
          refine ⟨{ s with network := net, poisoned := true }, ?_, rfl, rfl⟩
          unfold Request.answer explainScore
          rw [Outcome.run_bind, constraintMatches_stops hs ha h]
          rfl
      | indictments =>
          refine ⟨{ s with network := net, poisoned := true }, ?_, rfl, rfl⟩
          unfold Request.answer Session.indictments
          rw [Outcome.run_bind, constraintMatches_stops hs ha h]
          rfl

end Stopped

/-- Performing a call is making the request and leaving its answer out. -/
theorem perform_run (c : Call V) (s : Session V S) : c.perform.run.run s =
    match (Request.call c).answer.run.run s with
    | (.ok _, s') => (.ok (), s')
    | (.error e, s') => (.error e, s') := by
  have hdone : ∀ x : SessionCall V S Unit, x.run.run s =
      match (do x; return .done : SessionCall V S (Answer S)).run.run s with
      | (.ok _, s') => (.ok (), s')
      | (.error e, s') => (.error e, s') := by
    intro x
    rw [Outcome.run_bind]
    rcases x.run.run s with ⟨e | a, s'⟩ <;> rfl
  have hleft : ∀ {α : Type} (x : SessionCall V S α) (next : α → Answer S),
      (do let _ ← x : SessionCall V S Unit).run.run s =
        match (do return next (← x) : SessionCall V S (Answer S)).run.run s with
        | (.ok _, s') => (.ok (), s')
        | (.error e, s') => (.error e, s') := by
    intro α x next
    rw [Outcome.run_bind, Outcome.run_bind]
    rcases x.run.run s with ⟨e | a, s'⟩ <;> rfl
  cases c with
  | insert f => exact hdone (Session.insert f)
  | update f => exact hdone (Session.update f)
  | retract f => exact hdone (Session.retract f)
  | calculateScore => exact hleft calculateScore .score
  | constraintTotals => exact hleft constraintTotals .totals
  | constraintMatches => exact hleft constraintMatches .analyses
  | explainScore => exact hleft explainScore .explanation
  | indictments => exact hleft Session.indictments .indictments

/-- A session refuses what is asked of it once it is poisoned. -/
theorem answer_refuses (r : Request V) (h : s.poisoned = true) :
    r.answer.run.run s = (.error .poisoned, s) := by
  cases r with
  | insertInitial f =>
      unfold Request.answer addFact
      rw [Outcome.run_bind, checkUsable_refuses h]
  | call c =>
      have hperformed := perform_refuses c h
      rw [perform_run] at hperformed
      rcases hrun : (Request.call c).answer.run.run s with ⟨e | a, s'⟩
      · rw [hrun] at hperformed
        obtain ⟨he, rfl⟩ := Prod.mk.inj hperformed
        rw [Except.error.inj he]
      · rw [hrun] at hperformed
        cases hperformed

section TurnedAway

omit [Score S]

/-- The call is refused and changes nothing, whatever was to follow it. -/
def Refuses (s : Session V S) (x : SessionCall V S α) : Prop :=
  ∃ e : EngineError, e.isRefusal ∧ x.run.run s = (.error e, s)

omit [Cell V] in
theorem Refuses.bind {x : SessionCall V S α} (h : s.Refuses x) (next : α → SessionCall V S β) :
    s.Refuses (x >>= next) := by
  obtain ⟨e, he, hrun⟩ := h
  exact ⟨e, he, by rw [Outcome.run_bind, hrun]⟩

omit [Cell V] in
theorem checked_refuses {type : String} {known : Prop} {next : SessionCall V S α}
    (hs : s.poisoned = false) (ha : ¬((s.domain.class? type).isSome ∧ known))
    (hnext : ¬known → s.Refuses next) :
    s.Refuses (checkUsable >>= fun _ => checkKnown type >>= fun _ => next) := by
  unfold Refuses
  rw [checkUsable_passes hs]
  by_cases hclass : (s.domain.class? type).isSome
  · rw [checkKnown_passes hclass]
    exact hnext fun hknown => ha ⟨hclass, hknown⟩
  · refine Refuses.bind ⟨.domainModel (.unknownClass type), rfl, ?_⟩ _
    unfold checkKnown
    rw [Outcome.run_get_bind, Option.not_isSome_iff_eq_none.mp hclass]
    rfl

theorem addFact_refuses {description : Fact V → String} {f : Fact V} (hs : s.poisoned = false)
    (ha : ¬((s.domain.class? f.type).isSome ∧ s.facts.contains f.key = false)) :
    s.Refuses (addFact description f) := by
  refine checked_refuses hs ha fun hthere => ⟨.duplicateFact (description f), rfl, ?_⟩
  rw [Outcome.run_get_bind, if_pos (by simpa using hthere)]
  rfl

theorem update_refuses {f : Fact V} (hs : s.poisoned = false)
    (ha : ¬((s.domain.class? f.type).isSome ∧ s.facts.contains f.key = true)) :
    s.Refuses (update f) := by
  refine checked_refuses hs ha fun hmissing => ⟨.unknownFact (describe f), rfl, ?_⟩
  rw [Outcome.run_get_bind, if_neg hmissing]
  rfl

theorem retract_refuses {f : Fact V} (hs : s.poisoned = false)
    (ha : ¬((s.domain.class? f.type).isSome ∧ s.facts.contains f.key = true)) :
    s.Refuses (retract f) := by
  refine checked_refuses hs ha fun hmissing => ⟨.unknownFact (describe f), rfl, ?_⟩
  rw [Table.contains_eq_isSome] at hmissing
  rw [Outcome.run_get_bind, Option.not_isSome_iff_eq_none.mp hmissing]
  rfl

end TurnedAway

theorem constraintMatches_refuses (hs : s.poisoned = false) (ha : ¬s.tracksMatches = true) :
    s.Refuses constraintMatches := by
  refine ⟨.matchTrackingDisabled, rfl, ?_⟩
  unfold constraintMatches
  rw [checkUsable_passes hs, Outcome.run_get_bind, if_neg ha]
  rfl

/-- A request that does not pass its checks is refused. -/
theorem answer_turnsAway {r : Request V} (hs : s.poisoned = false) (ha : ¬r.Admitted s) :
    s.Refuses r.answer := by
  cases r with
  | insertInitial f => exact (addFact_refuses hs ha).bind _
  | call c =>
      cases c with
      | insert f => exact (addFact_refuses hs ha).bind _
      | update f => exact (update_refuses hs ha).bind _
      | retract f => exact (retract_refuses hs ha).bind _
      | calculateScore | constraintTotals => exact absurd trivial ha
      | constraintMatches => exact (constraintMatches_refuses hs ha).bind _
      | explainScore | indictments => exact ((constraintMatches_refuses hs ha).bind _).bind _

/-- A verification that is stopped is answered with the fault and poisons the session. -/
theorem calculateScore_stops {net fresh net' : Network V S} {n : Nat} {fault : NetworkFault}
    (hs : s.poisoned = false) (hmode : s.mode.isAsserted)
    (hsettle : Network.settle.run.run s.network = (.ok n, net))
    (hcompile : Network.compile net.graph s.domain = .ok fresh)
    (h : s.rebuilding.run.run fresh = (.error fault, net')) :
    calculateScore.run.run s = (.error (net'.evaluationError verification fault),
      { s with network := net, poisoned := true }) := by
  rw [calculateScore_run hs, hsettle]
  have hrebuilding : ({ s with network := net } : Session V S).rebuilding = s.rebuilding := rfl
  have hgraph : ({ s with network := net } : Session V S).graph = net.graph := rfl
  simp only [hmode, if_true, rebuiltScore_run, hrebuilding, hgraph, hcompile, h]

/-- Nothing but a fault poisons a session. -/
theorem answer_poisons {r : Request V} (hs : s.poisoned = false) {x : Except EngineError (Answer S)}
    (h : r.answer.run.run s = (x, s')) (hs' : s'.poisoned = true) :
    ∃ failure, x = .error (.evaluation failure) := by
  by_cases hr : r = .call .calculateScore
  · subst hr
    unfold Request.answer at h
    rw [Outcome.run_bind] at h
    rcases hscore : calculateScore.run.run s with ⟨e | score, s''⟩
    · rw [hscore] at h
      obtain ⟨rfl, rfl⟩ := Prod.mk.inj h
      obtain ⟨failure, he⟩ := calculateScore_poisons hs hscore hs'
      exact ⟨failure, congrArg Except.error (Except.error.inj he)⟩
    · rw [hscore] at h
      obtain ⟨rfl, rfl⟩ := Prod.mk.inj h
      obtain ⟨failure, he⟩ := calculateScore_poisons hs hscore hs'
      cases he
  · have hdeclined := answer_declines hs hr
    unfold SessionCall.Ensures at hdeclined
    rw [h] at hdeclined
    cases x with
    | ok a =>
        have husable : s'.poisoned = false := hdeclined
        rw [hs'] at husable
        cases husable
    | error e =>
        rcases hdeclined with ⟨-, rfl⟩ | ⟨he, -⟩
        · rw [hs] at hs'
          cases hs'
        · obtain ⟨failure, rfl⟩ := EngineError.isEvaluation_iff.mp he
          exact ⟨failure, rfl⟩

/-- The answers to requests that are made one after the other, and the session after them. -/
def transcript (s : Session V S) :
    List (Request V) → List (Except EngineError (Answer S)) × Session V S
  | [] => ([], s)
  | r :: rs =>
      let (x, s') := r.answer.run.run s
      let (xs, s'') := transcript s' rs
      (x :: xs, s'')

/-- A session answers that it is poisoned, whatever is asked, and stays as it is. -/
def Dead (s : Session V S) : Prop :=
  ∀ rs : List (Request V), transcript s rs = (rs.map fun _ => .error .poisoned, s)

theorem dead_of_poisoned (h : s.poisoned = true) : s.Dead := by
  intro rs
  induction rs with
  | nil => rfl
  | cons r rs ih =>
      unfold transcript
      simp only [answer_refuses r h, ih, List.map_cons]

theorem transcript_cons {r : Request V} {x : Except EngineError (Answer S)}
    (h : r.answer.run.run s = (x, s')) (rs : List (Request V)) :
    transcript s (r :: rs) = (x :: (transcript s' rs).1, (transcript s' rs).2) := by
  rw [transcript, h]

/-- What is known of a request to a session, whatever the session has been through. -/
structure Request.Contained (r : Request V) (s : Session V S) : Prop where
  /-- A request that does not pass its checks is refused and changes nothing. -/
  turnedAway : s.poisoned = false → ¬r.Admitted s → s.Refuses r.answer
  /-- After a refusal everything is answered as if the request had not been made. Scoring is apart:
  the network anew may be refused when the session has been settled. -/
  refused : ∀ e s', r.answer.run.run s = (.error e, s') → e.isRefusal →
    r ≠ .call .calculateScore → s' = s ∧
      ∀ rs, transcript s (r :: rs) = (.error e :: (transcript s rs).1, (transcript s rs).2)
  /-- A fault of the network is reported, and the session is of no use afterwards. -/
  stopped : s.poisoned = false → r.Admitted s → ∀ fault net, r.Stops s fault net →
    ∃ failure s', net.evaluationError r.callName fault = .evaluation failure ∧
      r.answer.run.run s = (.error (.evaluation failure), s') ∧ s'.network = net ∧
      s'.poisoned = true ∧ s'.Dead
  /-- So is a fault of the network anew that verifies a score. -/
  unverified : r = .call .calculateScore → s.poisoned = false → s.mode.isAsserted →
    ∀ n net fresh fault net', Network.settle.run.run s.network = (.ok n, net) →
      Network.compile net.graph s.domain = .ok fresh →
      s.rebuilding.run.run fresh = (.error fault, net') →
      ∃ failure s', net'.evaluationError verification fault = .evaluation failure ∧
        r.answer.run.run s = (.error (.evaluation failure), s') ∧ s'.poisoned = true ∧ s'.Dead
  /-- Nothing but a fault poisons a session. -/
  poisons : s.poisoned = false → ∀ x s', r.answer.run.run s = (x, s') → s'.poisoned = true →
    ∃ failure, x = .error (.evaluation failure)
  /-- A poisoned session refuses everything and stays as it is. -/
  absorbed : s.poisoned = true → r.answer.run.run s = (.error .poisoned, s) ∧ s.Dead

theorem request_contained (r : Request V) (s : Session V S) : r.Contained s where
  turnedAway := answer_turnsAway
  refused e s' hrun he hr := by
    have hkept : s' = s := by
      cases hs : s.poisoned with
      | true =>
          rw [answer_refuses r hs] at hrun
          exact (Prod.mk.inj hrun).2.symm
      | false =>
          have hdeclined := answer_declines hs hr
          unfold SessionCall.Ensures at hdeclined
          rw [hrun] at hdeclined
          rcases hdeclined with ⟨-, hkept⟩ | ⟨hfault, -⟩
          · exact hkept
          · obtain ⟨failure, rfl⟩ := EngineError.isEvaluation_iff.mp hfault
            cases he
    rw [hkept] at hrun
    exact ⟨hkept, transcript_cons hrun⟩
  stopped hs ha fault net h := by
    obtain ⟨s', hrun, hs', hnet⟩ := answer_stops hs ha h
    exact ⟨_, s', rfl, hrun, hnet, hs', dead_of_poisoned hs'⟩
  unverified := by
    rintro rfl hs hmode n net fresh fault net' hsettle hcompile hrebuild
    refine ⟨_, { s with network := net, poisoned := true }, rfl, ?_, rfl, dead_of_poisoned rfl⟩
    unfold Request.answer
    rw [Outcome.run_bind, calculateScore_stops hs hmode hsettle hcompile hrebuild]
    rfl
  poisons hs x s' hrun hs' := answer_poisons hs hrun hs'
  absorbed hs := ⟨answer_refuses r hs, dead_of_poisoned hs⟩

/-- How a request ended, by name. -/
def ending : Except EngineError (Answer S) → String
  | .ok _ => "Answered"
  | .error e => e.kind

end Session

namespace Coin

/-- Gives up on coins without worth. -/
def isSound : RowFunction Coin Bool := ⟨none, fun row =>
  if row.all fun c => c.worth != 0 then .ok true else .error (.raised "a coin without worth")⟩

def soundProvider : Declaring Coin SimpleScore (List Constraint) := do
  let all ← ConstraintFactory.forEach "coin"
  let sound ← ConstraintFactory.filter all isSound
  return [← ConstraintFactory.constraint sound ⟨"", "sound"⟩ SimpleScore.one pairTerms]

def soundFactory : SessionFactory Coin SimpleScore :=
  (SessionFactory.build .default domain soundProvider).toOption.get (by decide +kernel)

/-- The network of the factory, with the order of its nodes written out. -/
def soundNetwork : Network Coin SimpleScore where
  __ := (Network.compile soundFactory.graph soundFactory.domain).toOption.get (by decide +kernel)
  order := [0, 1, 2]

/-- A blank session without match tracking. -/
def soundSession : Session Coin SimpleScore := .blank soundFactory soundNetwork false

example : (soundSession.transcript [.insertInitial (coin 1 5), .call (.insert (coin 1 7)),
    .call .explainScore, .call .calculateScore, .insertInitial (coin 2 0), .call .constraintTotals,
    .call (.retract (coin 2 0))]).1.map Session.ending =
    ["Answered", "DuplicateFact", "MatchTrackingDisabled", "Answered", "Answered", "Evaluation",
      "Poisoned"] := by decide +kernel

end Coin

end ConstraintScoring
