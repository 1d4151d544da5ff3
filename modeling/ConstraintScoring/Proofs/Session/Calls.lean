import ConstraintScoring.Proofs.Network.Layout
import ConstraintScoring.Proofs.Network.Runs
import ConstraintScoring.Session.Factory

/-!
# What the calls on a session do

Between calls the network of a session is at a reachable moment. A call takes it to another one,
refuses, or is stopped by a fault and poisons the session.
-/

namespace ConstraintScoring

variable {V S α β : Type}

namespace SessionCall

/-- What a call leads to when it answers, and when it fails. -/
def Ensures (x : SessionCall V S α) (s : Session V S) (Q : α → Session V S → Prop)
    (E : EngineError → Session V S → Prop) : Prop :=
  match x.run.run s with
  | (.ok a, s') => Q a s'
  | (.error e, s') => E e s'

variable {x : SessionCall V S α} {s : Session V S} {Q Q' : α → Session V S → Prop}
  {E E' : EngineError → Session V S → Prop}

theorem Ensures.mono (h : x.Ensures s Q E) (hQ : ∀ a s', Q a s' → Q' a s')
    (hE : ∀ e s', E e s' → E' e s') : x.Ensures s Q' E' := by
  unfold Ensures at h ⊢
  rcases hrun : x.run.run s with ⟨e | a, s'⟩ <;> simp only [hrun] at h ⊢
  · exact hE e s' h
  · exact hQ a s' h

theorem Ensures.of_pure {a : α} (h : Q a s) : (pure a : SessionCall V S α).Ensures s Q E := h

theorem Ensures.of_throw {e : EngineError} (h : E e s) :
    (throw e : SessionCall V S α).Ensures s Q E := h

theorem Ensures.bind {f : α → SessionCall V S β} {R : β → Session V S → Prop}
    (h : x.Ensures s Q E) (hf : ∀ a s', Q a s' → (f a).Ensures s' R E) : (x >>= f).Ensures s R E := by
  unfold Ensures at h ⊢
  rw [Outcome.run_bind]
  rcases hx : x.run.run s with ⟨e | a, s'⟩ <;> simp only [hx] at h ⊢
  · exact h
  · exact hf a s' h

theorem Ensures.get_bind {f : Session V S → SessionCall V S β} {R : β → Session V S → Prop}
    (h : (f s).Ensures s R E) : (get >>= f).Ensures s R E := h

end SessionCall

namespace Session

variable [Cell V] [Score S] {net₀ : Network V S} {s s' : Session V S} {m : Moment V S}

/-- The session is at a moment between calls. -/
structure At (net₀ : Network V S) (s : Session V S) (m : Moment V S) : Prop where
  reachable : Moment.Reachable net₀ m
  phase : m.phase = .rest
  net : m.net = s.network
  facts : m.facts = s.facts

/-- What no call changes. -/
structure Alike (s s' : Session V S) : Prop where
  domain : s'.domain = s.domain
  mode : s'.mode = s.mode
  tracksMatches : s'.tracksMatches = s.tracksMatches
  poisoned : s'.poisoned = s.poisoned

/-- The session is at a moment between calls with the same facts, and nothing waits. -/
structure Settled (net₀ : Network V S) (s s' : Session V S) : Prop where
  alike : Alike s s'
  facts : s'.facts = s.facts
  moment : ∃ m, s'.At net₀ m ∧ m.Idle

/-- A fault of a step of the network, or of a function that explains a match. -/
inductive Faulty (net₀ : Network V S) (fault : NetworkFault) : Prop where
  | stopped {m : Moment V S} : Moment.Reachable net₀ m → m.StoppedBy fault → Faulty net₀ fault
  | explaining {c : ConstraintDef V S} {row : Row V} {impact : S} : c ∈ net₀.graph.constraints →
      Network.explainMatch c row impact = .error fault.fault → Faulty net₀ fault

/-- A call was stopped by a fault and poisoned the session. -/
def Broken (net₀ : Network V S) (e : EngineError) (s : Session V S) : Prop :=
  s.poisoned = true ∧ ∃ fault call, ∃ net : Network V S, Faulty net₀ fault ∧
    e = net.evaluationError call fault

omit [Cell V] [Score S] in
theorem Alike.refl (s : Session V S) : Alike s s := ⟨rfl, rfl, rfl, rfl⟩

omit [Cell V] [Score S] in
theorem Alike.trans {s'' : Session V S} (h : Alike s s') (h' : Alike s' s'') : Alike s s'' :=
  ⟨h'.domain.trans h.domain, h'.mode.trans h.mode, h'.tracksMatches.trans h.tracksMatches,
    h'.poisoned.trans h.poisoned⟩

omit [Cell V] [Score S] in
theorem checkUsable_ensures {E : EngineError → Session V S → Prop} (h : s.poisoned = false) :
    (checkUsable : SessionCall V S Unit).Ensures s (fun _ s' => s' = s) E := by
  unfold checkUsable
  refine .get_bind ?_
  rw [h]
  exact .of_pure rfl

omit [Cell V] [Score S] in
theorem guarded_run (call : String) (work : Run V S α) (s : Session V S) :
    (guarded call work).run.run s =
      match work.run.run s.network with
      | (.ok a, net) => (.ok a, { s with network := net })
      | (.error fault, net) =>
          (.error (net.evaluationError call fault), { s with network := net, poisoned := true }) := by
  unfold guarded
  rw [Outcome.run_get_bind]
  rcases hrun : work.run.run s.network with ⟨fault | a, net⟩
  all_goals
    have hrun : work.run s.network = _ := hrun
    simp only [hrun]
    rfl

theorem guarded_of {call : String} {work : Run V S α} {Q : α → Network V S → Prop}
    (h : match work.run.run s.network with
      | (.ok a, net) => Q a net
      | (.error fault, _) => Faulty net₀ fault) :
    (guarded call work).Ensures s (fun a s' => ∃ net, s' = { s with network := net } ∧ Q a net)
      (Broken net₀) := by
  unfold SessionCall.Ensures
  rw [guarded_run]
  rcases hrun : work.run.run s.network with ⟨fault | a, net⟩ <;> simp only [hrun] at h
  · exact ⟨rfl, fault, call, net, h, rfl⟩
  · exact ⟨net, rfl, h⟩

/-- Work of the network is a step of the session or poisons it. -/
theorem guarded_ensures {call : String} {work : Run V S α} {Q : α → Moment V S → Prop}
    (hnet : m.net = s.network) (hgoes : Moment.Goes net₀ m work Q) :
    (guarded call work).Ensures s (fun a s' => ∃ m', Moment.Reachable net₀ m' ∧
        s' = { s with network := m'.net } ∧ Q a m') (Broken net₀) := by
  unfold Moment.Goes at hgoes
  rw [hnet] at hgoes
  refine (guarded_of (Q := fun a net => ∃ m', Moment.Reachable net₀ m' ∧ m'.net = net ∧ Q a m')
    ?_).mono ?_ fun _ _ => id
  · rcases hrun : work.run.run s.network with ⟨fault | a, net⟩ <;> simp only [hrun] at hgoes
    · obtain ⟨m', hm', -, hs⟩ := hgoes
      exact .stopped hm' hs
    · obtain ⟨m', hm', hnet', -, hq⟩ := hgoes
      exact ⟨m', hm', hnet', hq⟩
  · rintro a _ ⟨_, rfl, m', hm', rfl, hq⟩
    exact ⟨m', hm', rfl, hq⟩

/-- What a change of a fact leads to. -/
structure Changed (net₀ : Network V S) (c : FactChange) (f : Fact V) (s s' : Session V S) : Prop where
  alike : Alike s s'
  facts : s'.facts = c.after s.facts f
  moment : ∃ m, s'.At net₀ m

/-- A call is refused and changes nothing, or it poisons the session. -/
def Failed (net₀ : Network V S) (s : Session V S) (e : EngineError) (s' : Session V S) : Prop :=
  s' = s ∨ Broken net₀ e s'

omit [Cell V] [Score S] in
theorem checkKnown_ensures {type : String} {E : EngineError → Session V S → Prop}
    (hE : ∀ e, E e s) : (checkKnown type : SessionCall V S Unit).Ensures s (fun _ s' => s' = s) E := by
  unfold checkKnown
  refine .get_bind ?_
  split
  · exact .of_pure rfl
  · exact .of_throw (hE _)

section Changes

variable {f : Fact V}

theorem stage_ensures {c : FactChange} {call : String} {work : Run V S Unit}
    (h : s.At net₀ m) (hwork : work = Network.stage c.stage f) (ha : c.Allowed s.facts f) :
    (guarded call work).Ensures s (fun _ s' => ∃ m', Moment.Reachable net₀ m' ∧
      s' = { s with network := m'.net } ∧ m'.At .rest (c.after s.facts f)) (Broken net₀) := by
  subst hwork
  have hgoes := Moment.stage_goes h.reachable h.phase (h.facts ▸ ha)
  rw [h.facts] at hgoes
  exact guarded_ensures h.net hgoes

theorem addFact_ensures {description : Fact V → String} (h : s.At net₀ m) (hs : s.poisoned = false) :
    (addFact description f).Ensures s (fun _ s' => Changed net₀ .insert f s s')
      (Failed net₀ s) := by
  unfold addFact
  refine (checkUsable_ensures hs).bind ?_
  rintro _ _ rfl
  refine (checkKnown_ensures fun e => Or.inl rfl).bind ?_
  rintro _ s rfl
  refine .get_bind ?_
  split
  · exact .of_throw (Or.inl rfl)
  · rename_i hnew
    have hnone : s.facts.get? f.key = none := by
      rw [Table.contains_eq_isSome] at hnew
      simpa using hnew
    refine ((stage_ensures (c := .insert) h rfl hnone).mono (fun _ _ => id)
      fun e s' he => Or.inr he).bind ?_
    rintro _ _ ⟨m', hm', rfl, hat⟩
    exact ⟨⟨rfl, rfl, rfl, rfl⟩, rfl, m', hm', hat.phase, rfl, hat.facts⟩

theorem update_ensures (h : s.At net₀ m) (hs : s.poisoned = false) :
    (update f).Ensures s (fun _ s' => Changed net₀ .update f s s') (Failed net₀ s) := by
  unfold update
  refine (checkUsable_ensures hs).bind ?_
  rintro _ _ rfl
  refine (checkKnown_ensures fun e => Or.inl rfl).bind ?_
  rintro _ s rfl
  refine .get_bind ?_
  split
  · rename_i hthere
    have hsome : ∃ cell, s.facts.get? f.key = some cell := by
      rw [Table.contains_eq_isSome] at hthere
      exact Option.isSome_iff_exists.mp hthere
    refine ((stage_ensures (c := .update) h rfl hsome).mono (fun _ _ => id)
      fun e s' he => Or.inr he).bind ?_
    rintro _ _ ⟨m', hm', rfl, hat⟩
    exact ⟨⟨rfl, rfl, rfl, rfl⟩, rfl, m', hm', hat.phase, rfl, hat.facts⟩
  · exact .of_throw (Or.inl rfl)

theorem retract_ensures (h : s.At net₀ m) (hs : s.poisoned = false) :
    (retract f).Ensures s (fun _ s' => Changed net₀ .retract f s s') (Failed net₀ s) := by
  unfold retract
  refine (checkUsable_ensures hs).bind ?_
  rintro _ _ rfl
  refine (checkKnown_ensures fun e => Or.inl rfl).bind ?_
  rintro _ s rfl
  refine .get_bind ?_
  split
  · exact .of_throw (Or.inl rfl)
  · rename_i cell hcell
    have hgoes := Moment.stage_goes (c := .retract) (f := { f with cell }) h.reachable h.phase
      ⟨cell, by rw [h.facts]; exact hcell⟩
    have herased : { s with facts := s.facts.erase f.key }.network = m.net := h.net.symm
    refine ((guarded_ensures herased.symm hgoes).mono (fun _ s' hs' => ?_) fun e s' he => Or.inr he)
    obtain ⟨m', hm', rfl, hat⟩ := hs'
    exact ⟨⟨rfl, rfl, rfl, rfl⟩, rfl, m', hm', hat.phase, rfl, h.facts ▸ hat.facts⟩

end Changes

section Settling

variable [Std.TransOrd V] [LawfulScore S] {width : NodeId → Nat}

theorem settle_ensures {call : String} (h : s.At net₀ m) (hw : Network.Wired net₀ width)
    (hu : net₀.Unused) : (guarded call Network.settle).Ensures s
      (fun _ s' => Settled net₀ s s') (Broken net₀) := by
  refine (guarded_ensures h.net (Moment.settle_goes h.reachable hw hu h.phase)).mono ?_ fun _ _ => id
  rintro _ _ ⟨m', hm', rfl, hidle, hfacts⟩
  exact ⟨⟨rfl, rfl, rfl, rfl⟩, rfl, m', ⟨hm', hidle.1, rfl, hfacts.trans h.facts⟩, hidle⟩

theorem constraintTotals_ensures (h : s.At net₀ m) (hw : Network.Wired net₀ width)
    (hu : net₀.Unused) (hs : s.poisoned = false) : constraintTotals.Ensures s
      (fun totals s' => Settled net₀ s s' ∧ totals = s'.network.totals) (Broken net₀) := by
  unfold constraintTotals
  refine (checkUsable_ensures hs).bind ?_
  rintro _ _ rfl
  refine (settle_ensures h hw hu).bind fun _ s' hs' => ?_
  exact .get_bind (.of_pure ⟨hs', rfl⟩)

omit [Score S] [Std.TransOrd V] [LawfulScore S] in
theorem explainAll_fault {net : Network V S} {id : NodeId} {c : ConstraintDef V S}
    {live : List (TupleId × S)} {fault : NetworkFault}
    (h : net.explainAll id c live = .error fault) :
    ∃ row impact, Network.explainMatch c row impact = .error fault.fault := by
  induction live with
  | nil => cases h
  | cons entry live ih =>
      obtain ⟨t, impact⟩ := entry
      unfold Network.explainAll at h
      split at h
      · rename_i f hf
        obtain rfl := Except.error.inj h
        exact ⟨_, _, hf⟩
      · rcases Outcome.bind_eq_error.mp h with h | ⟨_, -, h⟩
        · exact ih h
        · cases h

omit [Score S] [Std.TransOrd V] [LawfulScore S] in
theorem analysesFrom_fault {net : Network V S} {constraints : List Nat} {fault : NetworkFault}
    (h : net.analysesFrom constraints = .error fault) :
    ∃ c ∈ net.graph.constraints, ∃ row impact,
      Network.explainMatch c row impact = .error fault.fault := by
  induction constraints with
  | nil => cases h
  | cons i rest ih =>
      unfold Network.analysesFrom at h
      split at h
      · rename_i id n c total _ hc _
        rcases Outcome.bind_eq_error.mp h with h | ⟨_, -, h⟩
        · refine ⟨c, Array.mem_of_getElem? hc, ?_⟩
          rcases Outcome.bind_eq_error.mp h with h | ⟨_, -, h⟩
          · exact explainAll_fault h
          · cases h
        · rcases Outcome.bind_eq_error.mp h with h | ⟨_, -, h⟩
          · exact ih h
          · cases h
      · exact ih h

omit [Std.TransOrd V] [LawfulScore S] in
theorem settledAnalyses_run (net : Network V S) : settledAnalyses.run.run net =
    match Network.settle.run.run net with
    | (.ok _, net) => (net.analyses, net)
    | (.error fault, net) => (.error fault, net) := by
  unfold settledAnalyses
  rw [Outcome.run_bind]
  rcases Network.settle.run.run net with ⟨fault | n, net⟩ <;> rfl

theorem constraintMatches_ensures (h : s.At net₀ m) (hw : Network.Wired net₀ width)
    (hu : net₀.Unused) (hs : s.poisoned = false) : constraintMatches.Ensures s
      (fun analyses s' => Settled net₀ s s' ∧ s'.network.analyses = .ok analyses)
      (Failed net₀ s) := by
  unfold constraintMatches
  refine (checkUsable_ensures hs).bind ?_
  rintro _ s rfl
  refine .get_bind ?_
  split
  · have hgoes := Moment.settle_goes h.reachable hw hu h.phase
    unfold Moment.Goes at hgoes
    rw [h.net] at hgoes
    refine (guarded_of (Q := fun analyses net => ∃ m', Moment.Reachable net₀ m' ∧
      m'.net = net ∧ (m'.Idle ∧ m'.facts = m.facts) ∧ net.analyses = .ok analyses) ?_).mono ?_
      fun e s' he => Or.inr he
    · rw [settledAnalyses_run]
      rcases hsettle : Network.settle.run.run s.network with ⟨fault | n, net⟩ <;>
        simp only [hsettle] at hgoes ⊢
      · obtain ⟨m', hm', -, hstop⟩ := hgoes
        exact .stopped hm' hstop
      · obtain ⟨m', hm', rfl, -, hq⟩ := hgoes
        cases hanalyses : m'.net.analyses with
        | error fault =>
            obtain ⟨c, hc, row, impact, hfault⟩ := analysesFrom_fault hanalyses
            refine .explaining (c := c) ?_ hfault
            rw [← (hm'.sound hw hu).like.graph]
            exact hc
        | ok analyses => exact ⟨m', hm', rfl, hq, hanalyses⟩
    · rintro analyses _ ⟨_, rfl, m', hm', rfl, ⟨hidle, hfacts⟩, hanalyses⟩
      exact ⟨⟨⟨rfl, rfl, rfl, rfl⟩, rfl, m', ⟨hm', hidle.1, rfl, hfacts.trans h.facts⟩, hidle⟩,
        hanalyses⟩
  · exact .of_throw (Or.inl rfl)

end Settling

section Scoring

variable [Std.TransOrd V] [LawfulScore S] {width : NodeId → Nat}

omit [Std.TransOrd V] [LawfulScore S] in
/-- Facts with keys of their own can be inserted one after the other. -/
theorem insertFacts_via {fs : List (Fact V)} (hm : Moment.Reachable net₀ m) (hp : m.phase = .rest)
    (hnew : ∀ f ∈ fs, m.facts.get? f.key = none)
    (hkeys : fs.Pairwise fun f f' => (f.key == f'.key) = false) :
    Moment.GoesVia net₀ (Phase.Inserting fs) m (insertFacts fs) fun _ =>
      Moment.At .rest ⟨m.facts.entries ++ fs.map fun f => (f.key, f.cell)⟩ := by
  induction fs generalizing m with
  | nil => exact .of_pure hm ⟨hp, by rw [List.map_nil, List.append_nil]⟩
  | cons f fs ih =>
      obtain ⟨hf, hfs⟩ := List.pairwise_cons.mp hkeys
      have hnone := hnew f List.mem_cons_self
      have hentries := Table.insert_entries_of_none f.cell hnone
      have hstage := (Moment.stage_via (c := .insert) hm hp hnone).widen
        (Phase.Noting.inserting (List.mem_cons_self (a := f) (l := fs)))
      refine hstage.bind fun _ m' hm' hat => ?_
      have hfacts : m'.facts = m.facts.insert f.key f.cell := hat.facts
      have hrest := (ih hm' hat.phase (fun f' hf' => ?_) hfs).widen
        fun _ h => h.mono fun _ => List.mem_cons_of_mem f
      · refine hrest.mono fun _ m'' _ h => ⟨h.phase, ?_⟩
        rw [h.facts, hfacts, hentries, List.map_cons, List.append_assoc, List.singleton_append]
      · rw [hfacts, Table.get?_eq_none_iff, hentries]
        intro e he
        rcases List.mem_append.mp he with he | he
        · exact Table.get?_eq_none_iff.mp (hnew f' (List.mem_cons_of_mem f hf')) e he
        · rw [List.mem_singleton.mp he]
          exact hf f' hf'

/-- A moment of the network with the same facts, all of them propagated, that is reached by
inserting them one after the other. -/
structure Rebuilt (net₀ : Network V S) (facts : Table (FactKey V) V) (m : Moment V S) : Prop where
  reachable : Moment.Reachable net₀ m
  idle : m.Idle
  facts : m.facts = facts

/-- What a new network does to come to the facts of the session. -/
def rebuilding (s : Session V S) : Run V S PUnit := do
  insertFacts s.currentFacts
  let _ ← Network.settle

/-- A new network can insert the facts of the session one after the other. -/
theorem inserting_via (h : s.At net₀ m) (hw : Network.Wired net₀ width) (hu : net₀.Unused) :
    Moment.GoesVia net₀ (Phase.Inserting s.currentFacts) (.start net₀) (insertFacts s.currentFacts)
      fun _ => Moment.At .rest s.facts := by
  have hkeys : s.currentFacts.Pairwise fun f f' => (f.key == f'.key) = false := by
    unfold currentFacts
    rw [List.pairwise_map, ← h.facts]
    exact (h.reachable.sound hw hu).facts_distinct
  have hentries : s.currentFacts.map (fun f => (f.key, f.cell)) = s.facts.entries := by
    unfold currentFacts
    rw [List.map_map]
    exact List.map_id _
  refine (insertFacts_via .start rfl (fun f _ => rfl) hkeys).mono fun _ m' _ hat =>
    ⟨hat.phase, hat.facts.trans ?_⟩
  rw [hentries]
  rfl

theorem rebuilding_goes (h : s.At net₀ m) (hw : Network.Wired net₀ width) (hu : net₀.Unused) :
    Moment.Goes net₀ (.start net₀) s.rebuilding fun _ => Rebuilt net₀ s.facts := by
  refine (inserting_via h hw hu).goes.bind fun _ m' hm' hat => ?_
  refine (Moment.settle_goes hm' hw hu hat.phase).bind fun _ m'' hm'' hidle => ?_
  exact .of_pure hm'' ⟨hm'', hidle.1, hidle.2.trans hat.facts⟩

/-- A moment at which a new network inserts the facts of the session, or propagates the changes after
all of them were inserted. -/
def Rebuilding (s : Session V S) (net₀ : Network V S) (m : Moment V S) : Prop :=
  Moment.Via (Phase.Inserting s.currentFacts) (.start net₀) m ∨
    ∃ m₁, m₁.At .rest s.facts ∧ Moment.Via (Phase.Inserting s.currentFacts) (.start net₀) m₁ ∧
      Moment.Via Phase.Settling { m₁ with phase := .settling m₁.net.order } m

/-- A new network that does not come to the facts of the session is stopped on the way. -/
theorem rebuilding_stops {fault : NetworkFault} {net : Network V S} (h : s.At net₀ m)
    (hw : Network.Wired net₀ width) (hu : net₀.Unused)
    (hrun : s.rebuilding.run.run net₀ = (.error fault, net)) :
    ∃ m', s.Rebuilding net₀ m' ∧ m'.StopsAt fault net := by
  have hinsert := inserting_via h hw hu
  unfold rebuilding at hrun
  unfold Moment.GoesVia at hinsert
  rw [show (Moment.start net₀).net = net₀ from rfl] at hinsert
  rw [Outcome.run_bind] at hrun
  rcases hins : (insertFacts s.currentFacts : Run V S Unit).run.run net₀ with ⟨fault' | a, net₁⟩ <;>
    rw [hins] at hinsert hrun
  · obtain ⟨rfl, rfl⟩ := hrun
    obtain ⟨m', -, hvia, hstop⟩ := hinsert
    exact ⟨m', Or.inl hvia, hstop⟩
  · obtain ⟨m₁, hm₁, rfl, hvia, hat⟩ := hinsert
    have hsettle : Network.settle.run.run m₁.net = (.error fault, net) := by
      simp only [Outcome.run_bind] at hrun
      rcases hs : (Network.settle : Run V S Nat).run.run m₁.net with ⟨fault' | n, net₂⟩ <;>
        rw [hs] at hrun <;> cases hrun
      rfl
    obtain ⟨m', -, hvia', hstop⟩ := Moment.settle_stops hm₁ hw hu hat.phase hsettle
    exact ⟨m', Or.inr ⟨m₁, hat, hvia, hvia'⟩, hstop⟩

theorem rebuiltScore_ensures (h : s.At net₀ m) (hw : Network.Wired net₀ width)
    (hu : net₀.Unused) (hc : Network.compile net₀.graph s.domain = .ok net₀) :
    rebuiltScore.Ensures s (fun score s' => s' = s ∧ ∃ m', Rebuilt net₀ s.facts m' ∧
      score = m'.net.score) (Broken net₀) := by
  have hsound := h.reachable.sound hw hu
  have hgraph : s.graph = net₀.graph := by
    unfold graph
    rw [← h.net, hsound.like.graph]
  have hgoes := rebuilding_goes h hw hu
  unfold rebuiltScore
  refine .get_bind ?_
  rw [hgraph, hc]
  refine SessionCall.Ensures.bind (Q := fun fresh s' => fresh = net₀ ∧ s' = s) ⟨rfl, rfl⟩ ?_
  rintro _ _ ⟨hfresh, hs'⟩
  rw [hfresh, hs']
  unfold Moment.Goes at hgoes
  rw [show (Moment.start net₀).net = net₀ from rfl] at hgoes
  split
  · rename_i u fresh hrun
    rw [show s.rebuilding.run.run net₀ = _ from hrun] at hgoes
    obtain ⟨m', hm', rfl, -, hbuilt⟩ := hgoes
    exact ⟨rfl, m', hbuilt, rfl⟩
  · rename_i fault fresh hrun
    rw [show s.rebuilding.run.run net₀ = _ from hrun] at hgoes
    obtain ⟨m', hm', -, hstop⟩ := hgoes
    exact ⟨rfl, fault, verification, fresh, .stopped hm' hstop, rfl⟩

theorem calculateScore_ensures (h : s.At net₀ m) (hw : Network.Wired net₀ width)
    (hu : net₀.Unused) (hc : Network.compile net₀.graph s.domain = .ok net₀)
    (hs : s.poisoned = false) : calculateScore.Ensures s
      (fun score s' => Settled net₀ s s' ∧ score = s'.network.score)
      (fun e s' => Broken net₀ e s' ∨ Settled net₀ s s' ∧ ∃ m', Rebuilt net₀ s.facts m' ∧
        Score.same m'.net.score s'.network.score = false ∧
        e = .scoreCorruption (Score.text s'.network.score) (Score.text m'.net.score)) := by
  unfold calculateScore
  refine (checkUsable_ensures hs).bind ?_
  rintro _ s rfl
  refine ((settle_ensures h hw hu).mono (fun _ _ => id) fun e s' he => Or.inl he).bind
    fun _ s' hs' => .get_bind (.get_bind ?_)
  obtain ⟨m', hat, -⟩ := hs'.moment
  split
  · have hc' : Network.compile net₀.graph s'.domain = .ok net₀ := by rw [hs'.alike.domain, hc]
    refine ((rebuiltScore_ensures hat hw hu hc').mono (fun _ _ => id) fun e s' he =>
      Or.inl he).bind ?_
    rintro rebuilt _ ⟨rfl, m'', hbuilt, rfl⟩
    rw [hs'.facts] at hbuilt
    split
    · exact .of_pure ⟨hs', rfl⟩
    · rename_i hsame
      exact .of_throw (Or.inr ⟨hs', m'', hbuilt, by simpa using hsame, rfl⟩)
  · exact .of_pure ⟨hs', rfl⟩

theorem explainScore_ensures (h : s.At net₀ m) (hw : Network.Wired net₀ width)
    (hu : net₀.Unused) (hs : s.poisoned = false) : explainScore.Ensures s
      (fun x s' => Settled net₀ s s' ∧ x.score = s'.network.score ∧
        s'.network.analyses = .ok x.constraints) (Failed net₀ s) := by
  unfold explainScore
  refine (constraintMatches_ensures h hw hu hs).bind ?_
  rintro analyses s' ⟨hs', hanalyses⟩
  exact .get_bind (.of_pure ⟨hs', rfl, hanalyses⟩)

theorem indictments_ensures (h : s.At net₀ m) (hw : Network.Wired net₀ width)
    (hu : net₀.Unused) (hs : s.poisoned = false) : indictments.Ensures s
      (fun x s' => Settled net₀ s s' ∧ ∃ analyses, s'.network.analyses = .ok analyses ∧
        x = IndictmentMap.ofMatches (analyses.flatMap (·.matched))) (Failed net₀ s) := by
  unfold indictments
  refine (constraintMatches_ensures h hw hu hs).bind ?_
  rintro analyses s' ⟨hs', hanalyses⟩
  exact .of_pure ⟨hs', analyses, hanalyses, rfl⟩

end Scoring

end Session

end ConstraintScoring
