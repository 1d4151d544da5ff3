import ConstraintScoring.Proofs.Session.Emptied
import ConstraintScoring.Proofs.Session.UniquePairs

/-!
# Facts and sources stay in step

The facts of a session are those that survive the calls it answered, in the order in which they were
inserted. Between any two calls, whether or not the changes have been propagated, a source has one
output for each of these facts that it shows, and is about to take back whatever else it still has.
-/

namespace ConstraintScoring

/-- A source has one tuple for each fact that it shows, and is about to take back all others. -/
structure SourceNode.InStep {V : Type} [Cell V] (n : SourceNode V)
    (shows : Fact V → Except Fault Bool) (facts : Table (FactKey V) V) (arena : Arena V)
    (owned : TupleId → Prop) : Prop where
  distinct : n.outputs.Distinct
  decided : ∀ k cell, k.type = n.type → facts.get? k = some cell →
    ∃ passes, shows (k.fact cell) = .ok passes
  shown_iff : ∀ k, (∃ t, n.outputs.get? k = some t) ↔
    k.type = n.type ∧ ∃ cell, facts.get? k = some cell ∧ shows (k.fact cell) = .ok true
  output : ∀ k t, n.outputs.get? k = some t → owned t ∧ (arena.state t).isActive ∧
    ∃ cell, facts.get? k = some cell ∧ arena.row t = [cell]
  leaving : ∀ t, owned t → t ∉ n.outputs.values →
    arena.state t = .dying ∨ arena.state t = .aborting

/-- The sources of a network at rest are in step with the facts. -/
theorem Moment.Sound.inStep {V S : Type} [Cell V] [Std.TransOrd V] [Score S] {net₀ : Network V S}
    {width : NodeId → Nat} {m : Moment V S} {id : NodeId} {n : SourceNode V} {c : FactClass V}
    {u : Bool} (h : m.Sound net₀ width) (hp : m.phase = .rest) (hn : m.net.kindAt id = .source n)
    (honly : n.assignedOnly = if u || !c.canBeUnassigned then none else some c) :
    n.InStep (c.admits u) m.facts m.net.arena fun t => m.net.arena.Occupied t ∧ m.owner t = id := by
  have houts : m.net.outs id = n.outputs.values := Network.outs_of_kindAt hn
  have htelling : m.telling? = none := by
    unfold telling?
    rw [hp]
  have hreflects : n.Reflects m.facts m.net.arena.row := by
    have hreflects := h.reflects id n hn
    unfold factsFor at hreflects
    rwa [hp] at hreflects
  have htended := h.holdings.tended id
  rw [houts] at htended
  rw [← SourceNode.accepts_eq_admits honly]
  refine ⟨hreflects.distinct, fun k cell htype hcell => ?_, fun k => ⟨?_, ?_⟩, fun k t hout => ?_,
    fun t hocc hleft => ?_⟩
  · obtain ⟨passes, hpasses, -⟩ := hreflects.accepts k cell htype hcell
    exact ⟨passes, hpasses⟩
  · rintro ⟨t, hout⟩
    obtain ⟨htype, cell, hcell⟩ := hreflects.backed k t hout
    obtain ⟨passes, hpasses, hiff, -⟩ := hreflects.accepts k cell htype hcell
    exact ⟨htype, cell, hcell, hiff.mpr ⟨t, hout⟩ ▸ hpasses⟩
  · rintro ⟨htype, cell, hcell, hshown⟩
    obtain ⟨passes, hpasses, hiff, -⟩ := hreflects.accepts k cell htype hcell
    exact hiff.mp (Except.ok.inj (hpasses.symm.trans hshown))
  · obtain ⟨htype, cell, hcell⟩ := hreflects.backed k t hout
    obtain ⟨-, -, -, hrow⟩ := hreflects.accepts k cell htype hcell
    have hmem := Table.mem_values_of_get? hout
    exact ⟨⟨htended.occupied hmem, h.holdings.owner_out id t (houts ▸ hmem)⟩,
      htended.active t hmem, cell, hcell, hrow t hout⟩
  · -- What a source owns but does not show waits in its queue, and only outputs are active there.
    have hqueued : t ∈ (m.waiting id).toList := by
      rcases h.holdings.covered t hocc.1 with hout | hqueued | htold
      · exact absurd (houts ▸ hocc.2 ▸ hout) hleft
      · exact hocc.2 ▸ hqueued
      · rw [htelling] at htold
        cases htold
    have hpending := htended.queue_pending t hqueued
    have hinactive : ¬(m.net.arena.state t).isActive := fun hactive =>
      hleft (htended.backed t hqueued hactive)
    cases hstate : m.net.arena.state t <;> simp_all [TupleState.isPending, TupleState.isActive]

namespace Session

section Survivors

variable {V : Type} [Cell V]

/-- The cell of the fact under a key after the call. -/
def Call.renew (k : FactKey V) (cell : V) : Call V → V
  | update x => if x.key == k then x.cell else cell
  | _ => cell

/-- The facts that are inserted and not retracted later on, in the order of the insertions, each with
the cell of its last update. -/
def survivors : List (Call V) → List (FactKey V × V)
  | [] => []
  | .insert x :: later =>
      if later.any (·.retracts x.key) then survivors later
      else (x.key, later.foldl (Call.renew x.key) x.cell) :: survivors later
  | _ :: later => survivors later

/-- What becomes of a fact by the call. -/
def Call.carry (c : Call V) (e : FactKey V × V) : Option (FactKey V × V) :=
  if c.retracts e.1 then none else some (e.1, c.renew e.1 e.2)

/-- One more call carries over the facts so far, and comes last if it adds one. -/
theorem survivors_concat (calls : List (Call V)) (c : Call V) :
    survivors (calls ++ [c]) = (survivors calls).filterMap c.carry ++ survivors [c] := by
  induction calls with
  | nil => rfl
  | cons d calls ih =>
      cases d with
      | insert x =>
          have hcarry : c.carry (x.key, calls.foldl (Call.renew x.key) x.cell) =
              if c.retracts x.key then none
              else some (x.key, (calls ++ [c]).foldl (Call.renew x.key) x.cell) := by
            rw [List.foldl_concat]
            rfl
          cases hlater : calls.any (·.retracts x.key) <;> cases hc : c.retracts x.key <;>
            simp [survivors, hlater, hc, hcarry, ih]
      | _ => exact ih

theorem survivors_inserts (facts : List (Fact V)) :
    survivors (facts.map .insert) = facts.map fun x => (x.key, x.cell) := by
  induction facts using List.reverseRecOn with
  | nil => rfl
  | append_singleton facts x ih =>
      have hcarry : (Call.insert x).carry = some := rfl
      rw [List.map_append, List.map_append, List.map_singleton, survivors_concat, ih, hcarry,
        List.filterMap_some]
      rfl

end Survivors

variable {V S : Type} [Cell V] [Score S] {f : SessionFactory V S} {s s' s₀ : Session V S}
  {net₀ : Network V S} {m : Moment V S} {facts : List (Fact V)} {calls : List (Call V)} {c : Call V}
  {e : EngineError} {tracksMatches : Bool}

/-- Whether the call is answered. -/
def answersTo (s : Session V S) (c : Call V) : Bool := (c.perform.run.run s).1.toOption.isSome

/-- The calls that are answered when some calls are made one after the other. -/
def answered (s : Session V S) : List (Call V) → List (Call V)
  | [] => []
  | c :: calls =>
      if s.answersTo c then c :: (s.after c).answered calls else (s.after c).answered calls

theorem answered_concat (s : Session V S) (calls : List (Call V)) (c : Call V) :
    s.answered (calls ++ [c]) =
      s.answered calls ++ if (calls.foldl after s).answersTo c then [c] else [] := by
  induction calls generalizing s with
  | nil => rfl
  | cons d calls ih =>
      simp only [List.cons_append, answered, List.foldl_cons, ih]
      split <;> rfl

theorem admitted_of_answersTo (hs : s.poisoned = false) (h : s.answersTo c) :
    (Request.call c).Admitted s := by
  by_contra hadmitted
  obtain ⟨e, -, hrefused⟩ := answer_turnsAway hs hadmitted
  unfold answersTo at h
  rw [perform_run, hrefused] at h
  cases h

omit [Score S] in
theorem addFact_appends {description : Fact V → String} {x : Fact V} (hs : s.poisoned = false) :
    (addFact description x : SessionCall V S Unit).Ensures s
      (fun _ s' => s'.poisoned = false ∧ s'.facts.entries = s.facts.entries ++ [(x.key, x.cell)])
      fun _ _ => True := by
  unfold addFact
  refine (checkUsable_ensures hs).bind ?_
  rintro _ _ rfl
  refine (checkKnown_ensures fun _ => trivial).bind ?_
  rintro _ s rfl
  refine .get_bind ?_
  split
  · exact .of_throw trivial
  · rename_i hnew
    have hnone : s.facts.get? x.key = none := by
      rw [Table.contains_eq_isSome] at hnew
      simpa using hnew
    have hguarded : (guarded "insert" (Network.insertFact x) : SessionCall V S Unit).Ensures s
        (fun _ s' => s'.poisoned = false ∧ s'.facts = s.facts) fun _ _ => True := by
      unfold SessionCall.Ensures
      rw [guarded_run]
      rcases (Network.insertFact x).run.run s.network with ⟨fault | a, net⟩
      · trivial
      · exact ⟨hs, rfl⟩
    refine hguarded.bind ?_
    rintro _ s' ⟨hs', hfacts⟩
    have hentries : (s'.facts.insert x.key x.cell).entries = s.facts.entries ++ [(x.key, x.cell)] := by
      rw [hfacts, Table.insert_entries_of_none x.cell hnone]
    exact ⟨hs', hentries⟩

omit [Score S] in
theorem insertAll_appends {fs : List (Fact V)} (hs : s.poisoned = false) :
    (insertAll fs : SessionCall V S Unit).Ensures s
      (fun _ s' => s'.facts.entries = s.facts.entries ++ fs.map fun x => (x.key, x.cell))
      fun _ _ => True := by
  induction fs generalizing s with
  | nil => exact .of_pure (List.append_nil _).symm
  | cons x fs ih =>
      refine (addFact_appends hs).bind ?_
      rintro _ s' ⟨hs', hentries⟩
      refine (ih hs').mono (fun _ s'' h => ?_) fun _ _ => id
      rw [h, hentries, List.append_assoc, List.map_cons, List.singleton_append]

/-- A session that is built holds the facts in the order in which they were given. -/
theorem built_entries (hbuild : f.buildSession facts tracksMatches = .ok s) :
    s.facts.entries = facts.map fun x => (x.key, x.cell) := by
  obtain ⟨s₀, hnew, h⟩ := Outcome.bind_eq_ok.mp hbuild
  obtain ⟨net₀, -, hnew⟩ := Outcome.bind_eq_ok.mp hnew
  obtain rfl := Except.ok.inj hnew
  have hensures : (insertAll facts).Ensures (blank f net₀ tracksMatches) _ _ :=
    insertAll_appends (s := blank f net₀ tracksMatches) rfl
  unfold SessionCall.Ensures at hensures
  generalize hs₀ : blank f net₀ tracksMatches = s₀ at hensures
  rw [show (⟨f.domain, f.mode, tracksMatches, net₀, .empty, false⟩ : Session V S) = s₀ from hs₀] at h
  rcases hrun : (insertAll facts).run.run s₀ with ⟨e | a, s'⟩ <;> simp only [hrun] at h hensures
  · cases h
  · obtain rfl := Except.ok.inj h
    subst hs₀
    exact hensures

section

variable [Std.TransOrd V]

omit [Score S] in
/-- An answered call changes the facts in their table as it changes the survivors. -/
theorem note_entries (hd : s.facts.Distinct) (ha : (Request.call c).Admitted s) :
    (c.note s.facts).entries = s.facts.entries.filterMap c.carry ++ survivors [c] := by
  cases c with
  | insert x =>
      have hnone : s.facts.get? x.key = none := by
        have hnew := ha.2
        rw [Table.contains_eq_isSome] at hnew
        simpa using hnew
      have hcarry : (Call.insert x).carry = some := rfl
      rw [hcarry, List.filterMap_some]
      exact Table.insert_entries_of_none x.cell hnone
  | update x =>
      have hthere : (s.facts.get? x.key).isSome := Table.contains_eq_isSome s.facts x.key ▸ ha.2
      have hcarry : (Call.update x).carry =
          some ∘ fun e => (e.1, if x.key == e.1 then x.cell else e.2) := rfl
      rw [hcarry, List.filterMap_eq_map]
      exact (hd.insert_entries_of_some x.cell hthere).trans (List.append_nil _).symm
  | retract x =>
      have hcarry : (Call.retract x).carry =
          Option.guard fun e : FactKey V × V => !(x.key == e.1) := by
        funext e
        by_cases hk : x.key == e.1 <;>
          simp [Call.carry, Call.retracts, Call.renew, Option.guard, hk]
      rw [hcarry, List.filterMap_eq_filter]
      exact (hd.erase_entries x.key).trans (List.append_nil _).symm
  | calculateScore | constraintTotals | constraintMatches | explainScore | indictments =>
      exact ((List.append_nil _).trans List.filterMap_some).symm

omit [Std.TransOrd V] in
theorem reached_of_calls (hbuild : f.buildSession facts tracksMatches = .ok s₀)
    (calls : List (Call V)) : Reached f (calls.foldl after s₀) := by
  induction calls using List.reverseRecOn with
  | nil => exact .built hbuild
  | append_singleton calls c ih =>
      rw [List.foldl_concat]
      exact ih.call c

omit [Std.TransOrd V] in
theorem usable_before (h : (s.after c).poisoned = false) : s.poisoned = false := by
  cases hs : s.poisoned with
  | false => rfl
  | true =>
      rw [after, perform_refuses c hs] at h
      exact hs.symm.trans h

omit [Std.TransOrd V] in
theorem run_of_unanswered (h : ¬s.answersTo c) :
    ∃ e, (Request.call c).answer.run.run s = (.error e, s.after c) := by
  unfold answersTo at h
  unfold after
  rw [perform_run] at h ⊢
  rcases hrun : (Request.call c).answer.run.run s with ⟨e | a, s'⟩ <;> rw [hrun] at h
  · exact ⟨e, rfl⟩
  · exact absurd rfl h

variable [LawfulScore S] {width : NodeId → Nat}

/-- A call that fails and does not poison the session leaves its facts alone. -/
theorem facts_of_unanswered (h : s.At net₀ m) (hw : Network.Wired net₀ width) (hu : net₀.Unused)
    (hc : Network.compile net₀.graph s.domain = .ok net₀) (hs' : (s.after c).poisoned = false)
    (hfails : ¬s.answersTo c) : (s.after c).facts = s.facts := by
  have hs := usable_before hs'
  have hbroken : ∀ {P : Prop}, (s.after c).poisoned = true → P := fun hp => by
    rw [hs'] at hp
    cases hp
  obtain ⟨e, hrun⟩ := run_of_unanswered hfails
  by_cases hscore : c = .calculateScore
  · have hensures := calculateScore_ensures h hw hu hc hs
    unfold SessionCall.Ensures at hensures
    subst hscore
    unfold Request.answer at hrun
    rw [Outcome.run_bind] at hrun
    rcases hcalculated : calculateScore.run.run s with ⟨e' | score, s'⟩ <;>
      rw [hcalculated] at hrun hensures <;> obtain ⟨-, rfl⟩ := Prod.mk.inj hrun
    · rcases hensures with hfault | ⟨hsettled, -⟩
      · exact hbroken hfault.1
      · exact hsettled.facts
    · exact hensures.1.facts
  · have hdeclined := answer_declines (r := .call c) hs fun hr => hscore (Request.call.inj hr)
    unfold SessionCall.Ensures at hdeclined
    rw [hrun] at hdeclined
    rcases hdeclined with ⟨-, hkept⟩ | ⟨-, hpoisoned⟩
    · rw [hkept]
    · exact hbroken hpoisoned

/-- The facts of a session that stays usable are those that survive the calls it answered. -/
theorem entries_of_calls (hf : Formed f.graph.declarations)
    (hbuild : f.buildSession facts tracksMatches = .ok s₀)
    (husable : (calls.foldl after s₀).poisoned = false) :
    (calls.foldl after s₀).facts.entries = survivors (facts.map .insert ++ s₀.answered calls) := by
  induction calls using List.reverseRecOn with
  | nil =>
      rw [answered, List.append_nil, survivors_inserts]
      exact built_entries hbuild
  | append_singleton calls c ih =>
      rw [List.foldl_concat] at husable ⊢
      have hs := usable_before husable
      obtain ⟨net₀, hcompiled, hdomain, -, m, hm⟩ := (reached_of_calls hbuild calls).live hf hs
      have hspec := Network.compile_spec hcompiled
      have hc : Network.compile net₀.graph (calls.foldl after s₀).domain = .ok net₀ := by
        rw [hspec.graph, hdomain, hcompiled]
      rw [answered_concat]
      by_cases hanswers : (calls.foldl after s₀).answersTo c
      · have hensures := perform_ensures c hm (hspec.wired hf) hspec.unused hc hs
        obtain ⟨_, s', hrun⟩ := Outcome.run_eq_ok hanswers
        unfold SessionCall.Ensures at hensures
        rw [hrun] at hensures
        have hafter : (calls.foldl after s₀).after c = s' := congrArg Prod.snd hrun
        have hdistinct := (reached_of_calls hbuild calls).facts_distinct hf hs
        rw [if_pos hanswers, ← List.append_assoc, survivors_concat, ← ih hs, hafter, hensures.facts]
        exact note_entries hdistinct (admitted_of_answersTo hs hanswers)
      · rw [if_neg hanswers, List.append_nil, ← ih hs]
        exact congrArg Table.entries
          (facts_of_unanswered hm (hspec.wired hf) hspec.unused hc husable hanswers)

variable {N : Naming V} {settings : FactorySettings S} {domain : DomainModel V}
  {written : List (Written V S)} {chosen : List Constraint}

/-- A session that was built and called in any way, and is not poisoned, has one entry for each fact
that survives the answered calls, in the order of their insertions, and every source is in step with
these facts, whether or not the changes have been propagated. -/
theorem sources_inStep (hf : f.ProvidedBy N settings domain written chosen)
    (hbuild : f.buildSession facts tracksMatches = .ok s₀) (hcalls : calls.foldl after s₀ = s)
    (husable : s.poisoned = false) :
    s.facts.Distinct ∧ s.facts.entries = survivors (facts.map .insert ++ s₀.answered calls) ∧
      ∃ net₀, Network.compile f.graph f.domain = .ok net₀ ∧ (∃ m, s.At net₀ m) ∧
        ∀ m, s.At net₀ m → ∀ id n, s.network.kindAt id = .source n →
          ∃ a d u c, s.network.nodes[id]? = some a ∧
            declaredIn f.graph.declarations a.decl = some d ∧ d.operation = .source n.type u ∧
            domain.class? n.type = some c ∧
            n.InStep (c.admits u) s.facts s.network.arena fun t =>
              s.network.arena.Occupied t ∧ m.owner t = id := by
  subst hcalls
  obtain ⟨hdomain, -, b, ho⟩ := hf.origin
  have hreached := reached_of_calls hbuild calls
  obtain ⟨net₀, hcompiled, -, -, hmoment⟩ := hreached.live ho.formed husable
  refine ⟨hreached.facts_distinct ho.formed husable, entries_of_calls ho.formed hbuild husable, net₀,
    hcompiled, hmoment, fun m hm id n hn => ?_⟩
  have hspec := Network.compile_spec hcompiled
  have hsound := hm.reachable.sound (hspec.wired ho.formed) hspec.unused
  rw [← hm.net] at hn ⊢
  obtain ⟨a, ha, -⟩ := Network.node_of_kindAt hn rfl
  obtain ⟨a₀, ha₀, hdecl, -⟩ := hsound.like.node ha
  obtain ⟨d, hd, hperforms⟩ := Moment.Sound.performs hsound.like hspec ha₀
  rw [hn] at hperforms
  obtain ⟨u, c, hop, hclass, honly⟩ := hperforms.of_source
  rw [← hm.facts]
  exact ⟨a, d, u, c, ha, hdecl ▸ hd, hop, hdomain ▸ hclass, hsound.inStep hm.phase hn honly⟩

end

end Session

namespace Coin

/-- Two calls are refused; one coin is turned over, taken back and put in again, and another one is
turned over after it was scored. -/
def tossing : List (Session.Call Coin) :=
  [.insert (toss 5 false), .calculateScore, .update (toss 7 true), .update (toss 5 false),
    .retract (toss 5 false), .insert (toss 5 true), .retract (toss 4 true), .update (toss 9 false)]

theorem tossed_class {type : String} {c : FactClass Coin} (h : tossed.class? type = some c) :
    c = ⟨"coin", some fun c => .ok c.heads, id⟩ := by
  have hget : tossed.class? type =
      if "coin" == type then some ⟨"coin", some fun c => .ok c.heads, id⟩ else none :=
    (Table.get?_insert _ _ _ _).trans rfl
  rw [hget] at h
  split at h
  · exact (Option.some.inj h).symm
  · cases h

theorem operation_mem {ds : Array (Declaration Coin)} {id : DeclId} {c : Candidate Coin}
    (h : declaredIn ds id = some c) : c.operation ∈ ds.toList.map (·.operation) := by
  obtain ⟨d, hd, rfl⟩ := declaredIn_eq_some.mp h
  exact List.mem_map_of_mem (Array.mem_toList_iff.mpr (Array.mem_of_getElem? hd))

/-- The factory shows the coins that are assigned only. -/
theorem tossFactory_source {id : DeclId} {d : Candidate Coin} {type : String} {u : Bool}
    (h : declaredIn tossFactory.graph.declarations id = some d) (hop : d.operation = .source type u) :
    u = false := by
  have hall : ∀ op ∈ tossFactory.graph.declarations.toList.map (·.operation),
      (match op with | .source _ u => u | _ => false) = false := by
    decide +kernel
  have hsource := hall d.operation (operation_mem h)
  rwa [hop] at hsource

def tossBuilt : Session Coin SimpleScore := .called tossFactory tossNetwork tossPurse []

theorem sources_inStep_tossed : ∃ m n, (tossing.foldl Session.after tossBuilt).At tossNetwork m ∧
    (tossing.foldl Session.after tossBuilt).network.kindAt 0 = .source n ∧
    n.InStep (FactClass.admits ⟨"coin", some fun c => .ok c.heads, id⟩ false)
      ⟨[toss 7 true, toss 9 false, toss 5 true].map fun x => (x.key, x.cell)⟩
      (tossing.foldl Session.after tossBuilt).network.arena (fun t =>
        (tossing.foldl Session.after tossBuilt).network.arena.Occupied t ∧ m.owner t = 0) ∧
    ∃ t ∈ ((tossing.foldl Session.after tossBuilt).network.queue 0).toList,
      (tossing.foldl Session.after tossBuilt).network.arena.state t = .dying := by
  obtain ⟨c, chosen, hf⟩ := tossFactory_provided
  have hbuild : tossFactory.buildSession tossPurse true = .ok tossBuilt :=
    Session.buildSession_eq tossNetwork_compiled (by decide +kernel)
  have husable : (tossing.foldl Session.after tossBuilt).poisoned = false := by decide +kernel
  obtain ⟨-, hentries, net₀, hcompiled, ⟨m, hm⟩, hsources⟩ :=
    Session.sources_inStep hf hbuild rfl husable
  obtain rfl := Except.ok.inj (tossNetwork_compiled.symm.trans hcompiled)
  have hleaving : ((tossing.foldl Session.after tossBuilt).network.queue 0).toList.any fun t =>
      (tossing.foldl Session.after tossBuilt).network.arena.state t = .dying := by decide +kernel
  obtain ⟨t, hqueued, hdying⟩ := List.any_eq_true.mp hleaving
  have hanswered : tossBuilt.answered tossing = [.calculateScore, .update (toss 7 true),
      .update (toss 5 false), .retract (toss 5 false), .insert (toss 5 true),
      .update (toss 9 false)] := by
    unfold tossing
    simp only [Session.answered]
    rw [if_neg (by decide +kernel), if_pos (by decide +kernel), if_pos (by decide +kernel),
      if_pos (by decide +kernel), if_pos (by decide +kernel), if_pos (by decide +kernel),
      if_neg (by decide +kernel), if_pos (by decide +kernel)]
  rw [hanswered] at hentries
  generalize hs : tossing.foldl Session.after tossBuilt = s at *
  have hfacts : s.facts = ⟨[toss 7 true, toss 9 false, toss 5 true].map fun x => (x.key, x.cell)⟩ :=
    congrArg Table.mk (hentries.trans rfl)
  have hsource : (s.network.kindAt 0).opKind = .source := by
    rw [← hs]
    decide +kernel
  obtain ⟨n, hn⟩ := NodeKind.exists_source hsource
  obtain ⟨a, d, u, c, -, hd, hop, hclass, hinStep⟩ := hsources m hm 0 n hn
  obtain rfl := tossFactory_source hd hop
  obtain rfl := tossed_class hclass
  exact ⟨m, n, hm, hn, hfacts ▸ hinStep, t, hqueued, of_decide_eq_true hdying⟩

end Coin

end ConstraintScoring
