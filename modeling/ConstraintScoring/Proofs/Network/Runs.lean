import ConstraintScoring.Proofs.Network.Rounds

/-!
# The work of a network, step by step

What a network does in one go is a sequence of steps: staging a change of a fact, and settling. Both
come to an end at a reachable moment, or are stopped at one.
-/

namespace ConstraintScoring

variable {V S α β : Type}

/-- Changes are being propagated. -/
def Phase.Settling : Phase V → Prop
  | .settling _ | .taken _ _ _ | .telling _ _ _ _ _ _ => True
  | .rest | .staging _ _ _ => False

/-- A change of a fact is being staged, or the session is between calls. -/
def Phase.Noting (c : FactChange) (f : Fact V) : Phase V → Prop
  | .rest => True
  | .staging c' f' _ => c' = c ∧ f' = f
  | .settling _ | .taken _ _ _ | .telling _ _ _ _ _ _ => False

/-- Facts are being inserted, or the session is between calls. -/
def Phase.Inserting (fs : List (Fact V)) (p : Phase V) : Prop :=
  p = .rest ∨ ∃ f ∈ fs, ∃ sources, p = .staging .insert f sources

theorem Phase.Noting.inserting {fs : List (Fact V)} {f : Fact V} (hf : f ∈ fs) :
    ∀ p, Phase.Noting .insert f p → Phase.Inserting fs p
  | .rest, _ => Or.inl rfl
  | .staging _ _ sources, ⟨rfl, rfl⟩ => Or.inr ⟨_, hf, sources, rfl⟩

theorem Phase.Inserting.mono {fs fs' : List (Fact V)} {p : Phase V} (h : p.Inserting fs)
    (hfs : ∀ f ∈ fs, f ∈ fs') : p.Inserting fs' :=
  h.imp id fun ⟨f, hf, sources, hp⟩ => ⟨f, hfs f hf, sources, hp⟩

namespace Moment

structure At (phase : Phase V) (facts : Table (FactKey V) V) (m : Moment V S) : Prop where
  phase : m.phase = phase
  facts : m.facts = facts

variable [Cell V] [Score S]

/-- A result of work begun at a moment: the work came to an end at a moment that satisfies `Q`, or was
stopped at a moment on the way. -/
def Lands (net₀ : Network V S) (m : Moment V S) (Q : α → Moment V S → Prop) :
    Except NetworkFault α × Network V S → Prop
  | (.ok a, net) => ∃ m', Reachable net₀ m' ∧ m'.net = net ∧ Leads m m' ∧ Q a m'
  | (.error fault, _) => ∃ m', Reachable net₀ m' ∧ Leads m m' ∧ StoppedBy m' fault

/-- Work begun at a moment comes to an end at a moment that satisfies `Q`, or is stopped at a moment
on the way. -/
def Goes (net₀ : Network V S) (m : Moment V S) (work : Run V S α) (Q : α → Moment V S → Prop) :
    Prop := Lands net₀ m Q (work.run.run m.net)

/-- Steps lead from one moment to the other, through moments in certain phases only. -/
def Via (P : Phase V → Prop) (m m' : Moment V S) : Prop :=
  Relation.ReflTransGen (fun a b => Step a b ∧ P b.phase) m m'

/-- The step that the moment calls for is stopped by a fault and leaves the network like this. -/
def StopsAt (m : Moment V S) (fault : NetworkFault) (net : Network V S) : Prop :=
  match m.phase with
  | .staging c f (id :: _) => (Network.stageAt c.stage f id).run.run m.net = (.error fault, net)
  | .telling _ e t (r :: _) _ _ => (Network.deliver e t r).run.run m.net = (.error fault, net)
  | _ => False

/-- A result of work begun at a moment that keeps to certain phases. -/
def LandsVia (net₀ : Network V S) (P : Phase V → Prop) (m : Moment V S)
    (Q : α → Moment V S → Prop) : Except NetworkFault α × Network V S → Prop
  | (.ok a, net) => ∃ m', Reachable net₀ m' ∧ m'.net = net ∧ Via P m m' ∧ Q a m'
  | (.error fault, net) => ∃ m', Reachable net₀ m' ∧ Via P m m' ∧ StopsAt m' fault net

/-- Work begun at a moment keeps to certain phases until it comes to an end at a moment that satisfies
`Q` or is stopped. -/
def GoesVia (net₀ : Network V S) (P : Phase V → Prop) (m : Moment V S) (work : Run V S α)
    (Q : α → Moment V S → Prop) : Prop := LandsVia net₀ P m Q (work.run.run m.net)

section

variable {net₀ : Network V S} {P P' : Phase V → Prop} {m m₁ : Moment V S} {work : Run V S α}
  {Q Q' : α → Moment V S → Prop} {x : Except NetworkFault α × Network V S}

theorem Via.leads (h : Via P m m₁) : Leads m m₁ :=
  Relation.ReflTransGen.mono (fun _ _ hs => hs.1) _ _ h

theorem Via.widen (h : Via P m m₁) (hP : ∀ p, P p → P' p) : Via P' m m₁ :=
  Relation.ReflTransGen.mono (fun _ _ hs => ⟨hs.1, hP _ hs.2⟩) _ _ h

theorem Via.phase (h : Via P m m₁) (hm : P m.phase) : P m₁.phase := by
  cases h with
  | refl => exact hm
  | tail _ hs => exact hs.2

theorem StopsAt.stoppedBy {fault : NetworkFault} {net : Network V S} (h : StopsAt m fault net) :
    StoppedBy m fault := by
  unfold StoppedBy
  cases hp : m.phase with
  | staging c f sources =>
      cases sources <;> simp only [StopsAt, hp] at h
      exact ⟨net, h⟩
  | telling id e t readers ts ids =>
      cases readers <;> simp only [StopsAt, hp] at h
      exact ⟨net, h⟩
  | rest | settling _ | taken _ _ _ => simp only [StopsAt, hp] at h

theorem LandsVia.lands (h : LandsVia net₀ P m Q x) : Lands net₀ m Q x := by
  obtain ⟨fault | a, net⟩ := x
  · obtain ⟨m', hm', hvia, hstop⟩ := h
    exact ⟨m', hm', hvia.leads, hstop.stoppedBy⟩
  · obtain ⟨m', hm', hnet, hvia, hq⟩ := h
    exact ⟨m', hm', hnet, hvia.leads, hq⟩

theorem GoesVia.goes (h : GoesVia net₀ P m work Q) : Goes net₀ m work Q := LandsVia.lands h

theorem Goes.mono (h : Goes net₀ m work Q)
    (hQ : ∀ a m', Reachable net₀ m' → Q a m' → Q' a m') : Goes net₀ m work Q' := by
  unfold Goes at h ⊢
  rcases hw : work.run.run m.net with ⟨fault | a, net⟩ <;> rw [hw] at h
  · exact h
  · obtain ⟨m', hm', hnet, hleads, hq⟩ := h
    exact ⟨m', hm', hnet, hleads, hQ a m' hm' hq⟩

theorem Goes.of_pure (hm : Reachable net₀ m) {a : α} (h : Q a m) : Goes net₀ m (pure a) Q :=
  ⟨m, hm, rfl, .refl, h⟩

theorem Goes.bind {next : α → Run V S β} {R : β → Moment V S → Prop} (h : Goes net₀ m work Q)
    (hnext : ∀ a m', Reachable net₀ m' → Q a m' → Goes net₀ m' (next a) R) :
    Goes net₀ m (work >>= next) R := by
  unfold Goes at h ⊢
  rw [Outcome.run_bind]
  rcases hw : work.run.run m.net with ⟨fault | a, net⟩
  · rw [hw] at h
    exact h
  · rw [hw] at h
    obtain ⟨m', hm', rfl, hleads, hq⟩ := h
    have hgoes := hnext a m' hm' hq
    unfold Goes at hgoes
    simp only
    rcases hrest : (next a).run.run m'.net with ⟨fault | b, net'⟩ <;> rw [hrest] at hgoes
    · obtain ⟨m'', hm'', hleads', hstop⟩ := hgoes
      exact ⟨m'', hm'', hleads.trans hleads', hstop⟩
    · obtain ⟨m'', hm'', hnet, hleads', hr⟩ := hgoes
      exact ⟨m'', hm'', hnet, hleads.trans hleads', hr⟩

theorem LandsVia.after (hvia : Via P m m₁) (h : LandsVia net₀ P m₁ Q x) :
    LandsVia net₀ P m Q x := by
  obtain ⟨fault | a, net⟩ := x
  · obtain ⟨m', hm', hvia', hstop⟩ := h
    exact ⟨m', hm', hvia.trans hvia', hstop⟩
  · obtain ⟨m', hm', hnet, hvia', hq⟩ := h
    exact ⟨m', hm', hnet, hvia.trans hvia', hq⟩

theorem GoesVia.mono (h : GoesVia net₀ P m work Q)
    (hQ : ∀ a m', Reachable net₀ m' → Q a m' → Q' a m') : GoesVia net₀ P m work Q' := by
  unfold GoesVia at h ⊢
  rcases hw : work.run.run m.net with ⟨fault | a, net⟩ <;> rw [hw] at h
  · exact h
  · obtain ⟨m', hm', hnet, hvia, hq⟩ := h
    exact ⟨m', hm', hnet, hvia, hQ a m' hm' hq⟩

theorem GoesVia.widen (h : GoesVia net₀ P m work Q) (hP : ∀ p, P p → P' p) :
    GoesVia net₀ P' m work Q := by
  unfold GoesVia at h ⊢
  rcases hw : work.run.run m.net with ⟨fault | a, net⟩ <;> rw [hw] at h
  · obtain ⟨m', hm', hvia, hstop⟩ := h
    exact ⟨m', hm', hvia.widen hP, hstop⟩
  · obtain ⟨m', hm', hnet, hvia, hq⟩ := h
    exact ⟨m', hm', hnet, hvia.widen hP, hq⟩

theorem GoesVia.of_pure (hm : Reachable net₀ m) {a : α} (h : Q a m) :
    GoesVia net₀ P m (pure a) Q := ⟨m, hm, rfl, .refl, h⟩

theorem GoesVia.bind {next : α → Run V S β} {R : β → Moment V S → Prop}
    (h : GoesVia net₀ P m work Q)
    (hnext : ∀ a m', Reachable net₀ m' → Q a m' → GoesVia net₀ P m' (next a) R) :
    GoesVia net₀ P m (work >>= next) R := by
  unfold GoesVia at h ⊢
  rw [Outcome.run_bind]
  rcases hw : work.run.run m.net with ⟨fault | a, net⟩
  · rw [hw] at h
    exact h
  · rw [hw] at h
    obtain ⟨m', hm', rfl, hvia, hq⟩ := h
    exact LandsVia.after hvia (hnext a m' hm' hq)

/-- Beginning a call does not touch the network. -/
theorem GoesVia.begun {phase : Phase V} (hs : Step m { m with phase }) (hP : P phase)
    (h : GoesVia net₀ P { m with phase } work Q) : GoesVia net₀ P m work Q :=
  LandsVia.after (.single ⟨hs, hP⟩) h

theorem GoesVia.get_bind {next : Network V S → Run V S β} {R : β → Moment V S → Prop}
    (h : GoesVia net₀ P m (next m.net) R) : GoesVia net₀ P m (get >>= next) R := h

/-- A single action of the network that ends with a step. -/
theorem GoesVia.of_ends (hm : Reachable net₀ m)
    (hend : ∀ a net, Network.Ends work m.net a net →
      ∃ m', Step m m' ∧ P m'.phase ∧ m'.net = net ∧ Q a m')
    (hstop : ∀ fault net, work.run.run m.net = (.error fault, net) → StopsAt m fault net) :
    GoesVia net₀ P m work Q := by
  unfold GoesVia
  rcases hrun : work.run.run m.net with ⟨fault | a, net⟩
  · exact ⟨m, hm, .refl, hstop fault net hrun⟩
  · obtain ⟨m', hs, hP, hnet, hq⟩ := hend a net hrun
    exact ⟨m', hm.step hs, hnet, .single ⟨hs, hP⟩, hq⟩

end

section Settle

variable [Std.TransOrd V] [LawfulScore S] {net₀ : Network V S} {width : NodeId → Nat}
  {m : Moment V S} {id : NodeId} {e : Event} {t : TupleId} {r : Route} {rs : List Route}
  {ts : List TupleId} {ids : List NodeId}

theorem deliverAll_via (hm : Reachable net₀ m) (hw : Network.Wired net₀ width) (hu : net₀.Unused)
    (hp : m.phase = .telling id e t rs ts ids) :
    GoesVia net₀ Phase.Settling m (Network.deliverAll e t rs) fun _ m' =>
      m'.At (.telling id e t [] ts ids) m.facts ∧
      Network.Delivers m.net (rs.map fun r => ⟨e, t, r⟩) m'.net ∧
      ∀ x ∈ ts, m'.net.arena.state x = m.net.arena.state x := by
  induction rs generalizing m with
  | nil => exact .of_pure hm ⟨⟨hp, rfl⟩, .nil, fun _ _ => rfl⟩
  | cons r rs ih =>
      have hone : GoesVia net₀ Phase.Settling m (Network.deliver e t r) fun _ m' =>
          m'.At (.telling id e t rs ts ids) m.facts ∧
          Network.Ends (Network.deliver e t r) m.net () m'.net ∧
          ∀ x ∈ ts, m'.net.arena.state x = m.net.arena.state x := by
        refine .of_ends hm (fun _ net he => ?_) fun fault net hs => ?_
        · exact ⟨_, .tell hp he, trivial, rfl, ⟨rfl, rfl⟩, he, fun x hx =>
            (hm.sound hw hu).state_waiting hw hp he hx⟩
        · unfold StopsAt
          rw [hp]
          exact hs
      refine hone.bind fun _ m' hm' ⟨hat, hend, hstate⟩ => ?_
      refine (ih hm' hat.phase).mono fun _ m'' _ ⟨hat', hdelivers, hstate'⟩ => ?_
      exact ⟨⟨hat'.phase, hat'.facts.trans hat.facts⟩, .cons hend hdelivers,
        fun x hx => (hstate' x hx).trans (hstate x hx)⟩

/-- The tuple whose turn it is is skipped, or its readers begin to be told of it. -/
theorem beginTuple_via (hm : Reachable net₀ m) (hw : Network.Wired net₀ width) (hu : net₀.Unused)
    (hp : m.phase = .taken id (t :: ts) ids) :
    GoesVia net₀ Phase.Settling m (Network.beginTuple t) fun e m' =>
      m'.facts = m.facts ∧
      Network.Ends (Network.beginTuple t) m.net e m'.net ∧
      (∀ x ∈ ts, m'.net.arena.state x = m.net.arena.state x) ∧
      (e = none → m'.phase = .taken id ts ids) ∧
      ∀ f, e = some f → m'.phase = .telling id f t (m'.net.routesOf id) ts ids := by
  have hnext := (hm.sound hw hu).next hp
  have hother : ∀ x ∈ ts, x ≠ t := fun x hx hxt => hnext.head.2.2.1 (hxt ▸ hx)
  refine .of_ends hm (fun e net he => ?_) fun fault net hs => by cases hs
  obtain ⟨hbegun, hnet⟩ := Network.ends_beginTuple he
  have hstate : ∀ x ∈ ts, net.arena.state x = m.net.arena.state x := fun x hx =>
    Arena.state_begin hnext.head.1 hnext.head.2.1 hbegun (hother x hx)
  cases e with
  | none =>
      exact ⟨_, .skip hp he, trivial, rfl, rfl, he, hstate, fun _ => rfl, fun _ hf => by cases hf⟩
  | some e =>
      refine ⟨_, .begin hp he, trivial, rfl, rfl, he, hstate, (fun hf => by cases hf),
        fun f hf => ?_⟩
      obtain rfl := Option.some.inj hf
      rfl

omit [Std.TransOrd V] [LawfulScore S] in
/-- A tuple that all readers have heard leaves is dropped. -/
theorem releaseTuple_via (hm : Reachable net₀ m)
    (hp : m.phase = .telling id .retract t [] ts ids) (hother : ∀ x ∈ ts, x ≠ t) :
    GoesVia net₀ Phase.Settling m (Network.releaseTuple t) fun _ m' =>
      m'.At (.taken id ts ids) m.facts ∧
      (∀ x ∈ ts, m'.net.arena.state x = m.net.arena.state x) ∧
      Network.Ends (Network.releaseTuple t) m.net () m'.net := by
  refine .of_ends hm (fun _ net hend => ?_) fun fault net hs => by cases hs
  refine ⟨_, .drop hp hend, trivial, rfl, ⟨rfl, rfl⟩, fun x hx => ?_, hend⟩
  obtain rfl := Network.ends_releaseTuple hend
  exact Arena.state_release_other (hother x hx)

/-- A tuple that waits is dropped, or its readers are told of its change, each of them once. -/
theorem propagate_via (hm : Reachable net₀ m) (hw : Network.Wired net₀ width) (hu : net₀.Unused)
    (hp : m.phase = .taken id (t :: ts) ids) :
    GoesVia net₀ Phase.Settling m (Network.propagate id t) fun n m' =>
      m'.At (.taken id ts ids) m.facts ∧
      (∀ x ∈ ts, m'.net.arena.state x = m.net.arena.state x) ∧ n = (m.net.changes [t]).length ∧
      ∀ ds net', Network.WorksThrough m'.net ts ds net' →
        Network.WorksThrough m.net (t :: ts) (m.net.spread id (m.net.changes [t]) ++ ds) net' := by
  have hother : ∀ x ∈ ts, x ≠ t := fun x hx hxt =>
    ((hm.sound hw hu).next hp).head.2.2.1 (hxt ▸ hx)
  unfold Network.propagate
  refine (beginTuple_via hm hw hu hp).bind fun e m' hm' hbegun => ?_
  obtain ⟨hfacts, hbegun, hstate, hskipped, htelling⟩ := hbegun
  obtain ⟨harena, hnet⟩ := Network.ends_beginTuple hbegun
  have hchanges : m.net.changes [t] = (e.map (·, t)).toList := by
    unfold Network.changes
    rw [List.filterMap_cons, harena]
    cases e <;> rfl
  cases e with
  | none =>
      refine .of_pure hm' ⟨⟨hskipped rfl, hfacts⟩, hstate, ?_, fun ds net' hds => ?_⟩
      · rw [hchanges]
        rfl
      · rw [hchanges]
        exact .skip hbegun hds
  | some e =>
      have hphase := htelling e rfl
      refine .get_bind ((deliverAll_via hm' hw hu hphase).bind fun _ m'' hm'' hdelivered => ?_)
      obtain ⟨hat, hdelivers, hstate'⟩ := hdelivered
      have hfacts := hat.facts.trans hfacts
      have hspread : m.net.spread id (m.net.changes [t]) =
          (m'.net.routesOf id).map fun r => ⟨e, t, r⟩ := by
        rw [hchanges, hnet]
        exact List.append_nil _
      have hcount : 1 = (m.net.changes [t]).length := by
        rw [hchanges]
        rfl
      have htold := fun x hx => (hstate' x hx).trans (hstate x hx)
      rw [hspread]
      split
      · rename_i he
        subst he
        refine (releaseTuple_via hm'' hat.phase hother).bind fun _ m₃ hm₃ hdropped =>
          .of_pure hm₃ ?_
        obtain ⟨hat₃, hstate₃, hend⟩ := hdropped
        exact ⟨⟨hat₃.phase, hat₃.facts.trans hfacts⟩,
          fun x hx => (hstate₃ x hx).trans (htold x hx), hcount, fun ds net' hds =>
            .tell hbegun hdelivers hend hds⟩
      · rename_i he
        have htells := Step.told hat.phase he
        refine ⟨_, hm''.step htells, rfl, .single ⟨htells, trivial⟩, ⟨rfl, hfacts⟩, htold, hcount,
          fun ds net' hds => .tell hbegun hdelivers ?_ hds⟩
        rw [if_neg he]
        rfl

/-- The readers of a node are told of the changes of all tuples that wait. -/
theorem propagateAll_via (hm : Reachable net₀ m) (hw : Network.Wired net₀ width) (hu : net₀.Unused)
    (hp : m.phase = .taken id ts ids) :
    GoesVia net₀ Phase.Settling m (Network.propagateAll id ts) fun n m' =>
      m'.At (.settling ids) m.facts ∧
      n = (m.net.changes ts).length ∧
      Network.WorksThrough m.net ts (m.net.spread id (m.net.changes ts)) m'.net := by
  induction ts generalizing m with
  | nil => exact ⟨_, hm.step (.pass hp), rfl, .single ⟨.pass hp, trivial⟩, ⟨rfl, rfl⟩, rfl, .nil⟩
  | cons t ts ih =>
      refine (propagate_via hm hw hu hp).bind fun n m' hm' ⟨hat, hstate, hn, hworks⟩ => ?_
      refine (ih hm' hat.phase).bind fun k m'' hm'' ⟨hat', hk, hworks'⟩ => .of_pure hm'' ?_
      have hroutes : m'.net.routesOf id = m.net.routesOf id :=
        ((hm'.sound hw hu).like.routesOf id).trans ((hm.sound hw hu).like.routesOf id).symm
      -- The tuples that still wait are in the states they were in, so their changes are the same.
      rw [Network.changes_congr hstate] at hk hworks'
      rw [Network.spread_congr hroutes] at hworks'
      have hchanges : m.net.changes (t :: ts) = m.net.changes [t] ++ m.net.changes ts :=
        List.filterMap_append (l := [t])
      refine ⟨⟨hat'.phase, hat'.facts.trans hat.facts⟩, ?_, ?_⟩
      · rw [hchanges, List.length_append, hn, hk]
      · rw [hchanges, Network.spread_append]
        exact hworks _ _ hworks'

/-- The turn of a node came at a moment, and it told its readers of all changes that were staged. -/
structure Complete (net₀ : Network V S) (round : Round V S) : Prop where
  moment : ∃ m ids, Reachable net₀ m ∧ m.net = round.before ∧ m.phase = .settling (round.node :: ids)
  deliveries : round.deliveries = round.before.spread round.node
    (round.before.changes (round.before.queue round.node).toList)

theorem settleAll_via (hm : Reachable net₀ m) (hw : Network.Wired net₀ width) (hu : net₀.Unused)
    (hp : m.phase = .settling ids) :
    GoesVia net₀ Phase.Settling m (Network.settleAll ids) fun n m' =>
      m'.At (.settling []) m.facts ∧
      ∃ rounds, Network.TakesTurns m.net ids rounds m'.net ∧ (∀ round ∈ rounds, Complete net₀ round) ∧
        n = (rounds.map (·.changes)).sum := by
  induction ids generalizing m with
  | nil => exact .of_pure hm ⟨⟨hp, rfl⟩, [], .nil, fun _ h => absurd h List.not_mem_nil, rfl⟩
  | cons id ids ih =>
      have htake : GoesVia net₀ Phase.Settling m (Network.takeQueue id) fun queue m' =>
          m'.At (.taken id queue.toList ids) m.facts ∧
          Network.Ends (Network.takeQueue id) m.net queue m'.net := by
        refine .of_ends hm (fun queue net he => ?_) fun fault net hs => by cases hs
        exact ⟨_, .take hp he, trivial, rfl, ⟨rfl, rfl⟩, he⟩
      have hnode : GoesVia net₀ Phase.Settling m (Network.settleNode id) fun n m' =>
          m'.At (.settling ids) m.facts ∧
          ∃ round, Complete net₀ round ∧ n = round.changes ∧
            ∀ rounds net', Network.TakesTurns m'.net ids rounds net' →
              Network.TakesTurns m.net (id :: ids) (round :: rounds) net' := by
        refine htake.bind fun queue m' hm' ⟨hat, hend⟩ => ?_
        obtain ⟨rfl, hnet⟩ := Network.ends_takeQueue hend
        refine (propagateAll_via hm' hw hu hat.phase).mono fun n m'' _ ⟨hat', hn, hworks⟩ => ?_
        rw [hnet] at hn
        have hspread : m'.net.spread id (m'.net.changes (m.net.queue id).toList) =
            m.net.spread id (m.net.changes (m.net.queue id).toList) := by
          rw [hnet]
          rfl
        exact ⟨⟨hat'.phase, hat'.facts.trans hat.facts⟩, ⟨id, m.net, _⟩,
          ⟨⟨m, ids, hm, rfl, hp⟩, rfl⟩, hn, fun rounds net' hrounds =>
            .cons hend (hspread ▸ hworks) hrounds⟩
      refine hnode.bind fun n m' hm' ⟨hat, round, hcomplete, hn, hturn⟩ => ?_
      refine (ih hm' hat.phase).bind fun k m'' hm'' ⟨hat', rounds, hturns, hall, hk⟩ =>
        .of_pure hm'' ?_
      refine ⟨⟨hat'.phase, hat'.facts.trans hat.facts⟩, round :: rounds, hturn _ _ hturns,
        List.forall_mem_cons.mpr ⟨hcomplete, hall⟩, ?_⟩
      rw [List.map_cons, List.sum_cons, hn, hk]

/-- Nothing waits to be propagated. -/
def Idle (m : Moment V S) : Prop := m.phase = .rest ∧ ∀ id, m.net.queue id = #[]

omit [Cell V] [Score S] [Std.TransOrd V] [LawfulScore S] in
theorem queue_of_settled (h : m.Settled []) (hq : m.net.queues.size = m.net.nodes.size)
    (hmem : ∀ id, id < m.net.nodes.size → id ∈ m.net.order) (id : NodeId) :
    m.net.queue id = #[] := by
  obtain ⟨before, horder, hempty⟩ := h
  by_cases hid : id < m.net.nodes.size
  · refine hempty id ?_
    have hin := hmem id hid
    rwa [horder, List.append_nil] at hin
  · unfold Network.queue
    simp [Array.getD_eq_getD_getElem?, hq, hid]

/-- Settling gives every node its turn and leaves nothing that waits. -/
theorem settle_rounds (hm : Reachable net₀ m) (hw : Network.Wired net₀ width) (hu : net₀.Unused)
    (hp : m.phase = .rest) :
    Goes net₀ m Network.settle fun n m' => (m'.Idle ∧ m'.facts = m.facts) ∧
      ∃ rounds, Network.TakesTurns m.net m.net.order rounds m'.net ∧
        (∀ round ∈ rounds, Complete net₀ round) ∧ n = (rounds.map (·.changes)).sum := by
  have hvia := settleAll_via (hm.step (.settle hp)) hw hu rfl
  have hlast : ∀ m', Reachable net₀ m' → At (.settling []) m.facts m' → ∃ m'',
      Step m' m'' ∧ m''.net = m'.net ∧ m''.Idle ∧ m''.facts = m.facts := by
    intro m' hm' hat
    have hsound := hm'.sound hw hu
    have hwired := hw.like hsound.like
    have hphase := hsound.phase
    simp only [InPhase, hat.phase] at hphase
    exact ⟨_, .settled hat.phase, rfl,
      ⟨rfl, queue_of_settled hphase hwired.queues_size hwired.mem_order⟩, hat.facts⟩
  unfold GoesVia at hvia
  change Lands net₀ m _ ((Network.settleAll m.net.order).run.run m.net)
  rcases hrun : (Network.settleAll m.net.order).run.run m.net with ⟨fault | k, net⟩
  · rw [hrun] at hvia
    obtain ⟨m', hm', hvia, hstop⟩ := hvia
    exact ⟨m', hm', hvia.leads.head (.settle hp), hstop.stoppedBy⟩
  · rw [hrun] at hvia
    obtain ⟨m', hm', rfl, hvia, hat, hrounds⟩ := hvia
    obtain ⟨m'', hs, hnet, hidle, hfacts⟩ := hlast m' hm' hat
    exact ⟨m'', hm'.step hs, hnet, (hvia.leads.head (.settle hp)).tail hs, ⟨hidle, hfacts⟩,
      hnet ▸ hrounds⟩

/-- Settling that is stopped was propagating changes. -/
theorem settle_stops {fault : NetworkFault} {net : Network V S} (hm : Reachable net₀ m)
    (hw : Network.Wired net₀ width) (hu : net₀.Unused) (hp : m.phase = .rest)
    (hrun : Network.settle.run.run m.net = (.error fault, net)) :
    ∃ m', Reachable net₀ m' ∧ Via Phase.Settling { m with phase := .settling m.net.order } m' ∧
      StopsAt m' fault net := by
  have hvia := settleAll_via (hm.step (.settle hp)) hw hu rfl
  have hrun : (Network.settleAll m.net.order).run.run m.net = (.error fault, net) := hrun
  unfold GoesVia at hvia
  rwa [hrun] at hvia

theorem settle_goes (hm : Reachable net₀ m) (hw : Network.Wired net₀ width) (hu : net₀.Unused)
    (hp : m.phase = .rest) :
    Goes net₀ m Network.settle fun _ m' => m'.Idle ∧ m'.facts = m.facts :=
  (settle_rounds hm hw hu hp).mono fun _ _ _ h => h.1

end Settle

section Stage

variable {net₀ : Network V S} {m : Moment V S} {c : FactChange} {f : Fact V} {ids : List NodeId}

theorem stageAll_via (hm : Reachable net₀ m) (hp : m.phase = .staging c f ids) :
    GoesVia net₀ (Phase.Noting c f) m (Network.stageAll c.stage f ids) fun _ =>
      At .rest (c.after m.facts f) := by
  induction ids generalizing m with
  | nil => exact ⟨_, hm.step (.noted hp), rfl, .single ⟨.noted hp, trivial⟩, rfl, rfl⟩
  | cons id ids ih =>
      have hone : GoesVia net₀ (Phase.Noting c f) m (Network.stageAt c.stage f id) fun _ =>
          At (.staging c f ids) m.facts := by
        refine .of_ends hm (fun _ net he => ⟨_, .note hp he, ⟨rfl, rfl⟩, rfl, rfl, rfl⟩)
          fun fault net hs => ?_
        unfold StopsAt
        rw [hp]
        exact hs
      refine hone.bind fun _ m' hm' hat => ?_
      refine (ih hm' hat.phase).mono fun _ m'' _ h => ⟨h.phase, ?_⟩
      rw [h.facts, hat.facts]

theorem stage_via (hm : Reachable net₀ m) (hp : m.phase = .rest) (ha : c.Allowed m.facts f) :
    GoesVia net₀ (Phase.Noting c f) m (Network.stage c.stage f) fun _ =>
      At .rest (c.after m.facts f) :=
  .get_bind ((stageAll_via (hm.step (.change hp ha)) rfl).begun (.change hp ha) ⟨rfl, rfl⟩)

theorem stage_goes (hm : Reachable net₀ m) (hp : m.phase = .rest) (ha : c.Allowed m.facts f) :
    Goes net₀ m (Network.stage c.stage f) fun _ => At .rest (c.after m.facts f) :=
  (stage_via hm hp ha).goes

end Stage

end Moment

end ConstraintScoring
