import ConstraintScoring.Proofs.Network.Runs
import ConstraintScoring.Proofs.Network.Stops

/-!
# The first settling of a network

Until a network has settled for the first time, readers are told of nothing but insertions, and each
reader has heard everything about the tuples that it knows. The row of such a tuple is current, and
the turn of its owner has come. So once another network of the same graph has settled with equal
facts, the first settling is stopped by nothing but a number that leaves its range.
-/

namespace ConstraintScoring

variable {V S : Type}

namespace Network

section Errors

variable {net net' : Network V S} {id : NodeId} {work : Stage V (NodeKind V S)} {fault : Fault}

theorem workAt_error (h : net.workAt id work = (.error fault, net')) :
    net'.nodes = net.nodes ∧ net'.routes = net.routes := by
  unfold workAt at h
  simp only at h
  split at h <;> cases h
  exact ⟨rfl, rfl⟩

variable [Score S]

theorem scoreAt_error {n : ScoreNode V S} {e : Event} {t : TupleId}
    (h : net.scoreAt id n e t = (.error fault, net')) :
    net'.nodes = net.nodes ∧ net'.routes = net.routes := by
  unfold scoreAt at h
  split at h <;> cases h
  exact ⟨rfl, rfl⟩

variable [Cell V] {r : Route} {e : Event} {t : TupleId} {stop : NetworkFault}

/-- A delivery that is stopped leaves what the nodes have recorded as it is. -/
theorem deliver_error (h : (deliver e t r).run.run net = (.error stop, net')) :
    net'.nodes = net.nodes ∧ net'.routes = net.routes := by
  have hanswer : ∀ {x : Except Fault Unit × Network V S} {subject : Network V S → String},
      answer r.node subject x = (.error stop, net') → ∃ fault, x = (.error fault, net') := by
    rintro ⟨fault | ⟨⟩, net₁⟩ subject hx
    · obtain ⟨-, rfl⟩ := Prod.mk.inj hx
      exact ⟨fault, rfl⟩
    · cases hx
  cases hnode : net.nodes[r.node]? with
  | none =>
      unfold deliver at h
      simp only [ExceptT.run_mk, StateT.run, hnode] at h
      cases h
  | some node =>
      by_cases hscore : ∃ n, node.kind = .score n
      · obtain ⟨n, hn⟩ := hscore
        rw [deliver_run_score hnode hn] at h
        obtain ⟨fault, hfault⟩ := hanswer h
        exact scoreAt_error hfault
      · rw [deliver_run_work hnode fun n hn => hscore ⟨n, hn⟩] at h
        obtain ⟨fault, hfault⟩ := hanswer h
        exact workAt_error hfault

end Errors

end Network

namespace Moment

/-- The nodes whose turns are still to come. -/
def later (m : Moment V S) : List NodeId :=
  match m.phase with
  | .settling ids | .taken _ _ ids | .telling _ _ _ _ _ ids => ids
  | .rest | .staging _ _ _ => m.net.order

/-- Nothing has been settled before: what readers have heard of was inserted by nodes whose turn has
come, and nothing was changed since. -/
structure Opening (m : Moment V S) : Prop where
  seen : ∀ t, m.net.arena.Occupied t → (m.net.arena.state t).isSeen →
    m.net.arena.state t = .ok ∧ m.owner t ∉ m.later
  event : ∀ id e t rs ts ids, m.phase = .telling id e t rs ts ids → e = .insert

variable [Cell V] [Std.TransOrd V] [Score S] {net₀ net : Network V S} {width : NodeId → Nat}
  {m m' : Moment V S} {id : NodeId} {e : Event} {t x : TupleId} {r : Route} {rs : List Route}
  {ts : List TupleId} {ids : List NodeId} {fault : NetworkFault} {g : DeclarationGraph V S}
  {domain : DomainModel V}

omit [Cell V] [Std.TransOrd V] [Score S] in
theorem opening_start (harena : net.arena = .empty) : (start net).Opening where
  seen t ht := by
    have ht : net.arena.Occupied t := ht
    rw [harena] at ht
    simp [Arena.Occupied, Arena.empty] at ht
  event _ _ _ _ _ _ hp := by cases hp

namespace Opening

omit [Cell V] [Std.TransOrd V] [Score S] in
/-- A step that leaves what was heard as it is. -/
theorem frame (ho : m.Opening)
    (hseen : ∀ x, m'.net.arena.Occupied x → (m'.net.arena.state x).isSeen →
      m.net.arena.Occupied x ∧ m'.net.arena.state x = m.net.arena.state x)
    (howner : m'.owner = m.owner) (hlater : ∀ p ∈ m'.later, p ∈ m.later)
    (hevent : ∀ id e t rs ts ids, m'.phase = .telling id e t rs ts ids → e = .insert) :
    m'.Opening where
  seen x hx hs := by
    obtain ⟨hocc, hstate⟩ := hseen x hx hs
    obtain ⟨hok, hout⟩ := ho.seen x hocc (hstate ▸ hs)
    rw [hstate, howner]
    exact ⟨hok, fun hp => hout (hlater _ hp)⟩
  event := hevent

/-- The work of a node whose turn has not come yet shows nobody anything. -/
theorem worked {W : Row V → Prop} {s' : Staging V} {O' : List TupleId} (ho : m.Opening)
    (h : Sound net₀ width m)
    (hk : Staging.Kept W ⟨m.net.arena, m.net.queue id⟩ (m.net.outs id) s' O')
    (harena : net.arena = s'.arena) (hid : id ∈ m.later) (hx : net.arena.Occupied x)
    (hseen : (net.arena.state x).isSeen) :
    net.arena.state x = .ok ∧ adopt m.net.arena net.arena id m.owner x ∉ m.later := by
  by_cases hocc : m.net.arena.Occupied x
  · rw [harena, hk.seen x hocc] at hseen
    obtain ⟨hok, howner⟩ := ho.seen x hocc hseen
    have hout : x ∉ m.net.outs id := fun hout => howner (h.holdings.owner_out id x hout ▸ hid)
    rw [harena, hk.state_other x hocc hout, Holdings.adopt_of_occupied hocc]
    exact ⟨hok, howner⟩
  · rw [harena] at hx hseen
    rw [(hk.made x hx hocc).2.1] at hseen
    cases hseen

/-- What is told of a tuple during the first settling is that it was inserted. -/
theorem begin (ho : m.Opening) (h : Sound net₀ width m) (hw : Network.Wired net₀ width)
    (hp : m.phase = .taken id (t :: ts) ids)
    (he : Network.Ends (Network.beginTuple t) m.net (some e) net) :
    Opening { m with net, phase := .telling id e t (net.routesOf id) ts ids } := by
  obtain ⟨hbegin, hnet⟩ := Network.ends_beginTuple he
  obtain ⟨hocc, -, -, howner⟩ := (h.next hp).head
  obtain ⟨hstate, harena⟩ := Arena.begin_eq_some.mp hbegin
  rw [harena] at hnet
  subst hnet
  have hlater : m.later = ids := by simp only [later, hp]
  have hinsert : e = .insert := by
    have hseen := ho.seen t hocc
    rw [hstate] at hseen
    cases e with
    | insert => rfl
    | update | retract => cases (hseen rfl).1
  subst hinsert
  have hid : id ∉ ids := by
    have hphase := h.phase
    simp only [InPhase, hp] at hphase
    obtain ⟨⟨before, horder⟩, -⟩ := hphase
    have hnodup := (hw.like h.like).order_nodup
    rw [horder] at hnodup
    exact (List.nodup_cons.mp hnodup.of_append_right).1
  refine ⟨fun x hx hseen => ?_, fun _ _ _ _ _ _ hp' => by cases hp'; rfl⟩
  have hx' := (Arena.occupied_setState x).mp hx
  change (m.net.arena.setState t Event.insert.announced).state x = .ok ∧ m.owner x ∉ ids
  change ((m.net.arena.setState t Event.insert.announced).state x).isSeen at hseen
  rw [Arena.state_setState hocc.1] at hseen ⊢
  by_cases hxt : x = t
  · rw [if_pos hxt, hxt, howner]
    exact ⟨rfl, hid⟩
  · rw [if_neg hxt] at hseen ⊢
    exact hlater ▸ ho.seen x hx' hseen

theorem tell [LawfulScore S] (ho : m.Opening) (h : Sound net₀ width m)
    (hw : Network.Wired net₀ width) (hp : m.phase = .telling id e t (r :: rs) ts ids)
    (he : Network.Ends (Network.deliver e t r) m.net () net) :
    Opening ((m.worked r.node net (.telling id e t rs ts ids)).record r e t) := by
  have hr := h.ready hw hp
  have hspec := h.delivered hw hr
  rw [he] at hspec
  obtain ⟨k', s', ledger, hheard, hworked, -⟩ := hspec
  have hlater : m.later = ids := by simp only [later, hp]
  refine ⟨fun x hx hseen => ?_, fun _ _ _ _ _ _ hp' => ?_⟩
  · have hk := hheard.work.kept hr.clear.tended
    have hworks := ho.worked h hk hworked.arena (hlater ▸ hr.later) hx hseen
    rwa [hlater] at hworks
  · cases hp'
    exact ho.event _ _ _ _ _ _ hp

theorem note (ho : m.Opening) (h : Sound net₀ width m) (hw : Network.Wired net₀ width)
    {c : FactChange} {f : Fact V} (hp : m.phase = .staging c f (id :: ids))
    (he : Network.Ends (Network.stageAt c.stage f id) m.net () net) :
    Opening (m.worked id net (.staging c f ids)) := by
  obtain ⟨n, hn, hensures⟩ := h.source_ready hw hp
  have hwired := hw.like h.like
  have hspec := Network.stageAt_spec hn hwired.queues_size hensures
  rw [he] at hspec
  obtain ⟨n', s', ⟨hwork, -⟩, hworked⟩ := hspec
  have hwaiting : m.waiting = m.net.queue := by simp only [waiting, hp]
  have hwork : Staging.Work (·.length = width id) ⟨m.net.arena, m.net.queue id⟩ (m.net.outs id) s'
      n'.outputs.values := by
    rwa [Network.outs_of_kindAt hn]
  have hlater : m.later = m.net.order := by simp only [later, hp]
  have hid : id ∈ m.later := hlater ▸ hwired.mem_order id (Network.lt_of_kindAt hn rfl)
  refine ⟨fun x hx hseen => ?_, fun _ _ _ _ _ _ hp' => by cases hp'⟩
  have hk := hwork.kept (hwaiting ▸ h.holdings.tended id)
  have hworks := ho.worked h hk hworked.arena hid hx hseen
  rw [hlater, ← hworked.order] at hworks
  exact hworks

/-- Every step up to the end of the first settling. -/
theorem step [LawfulScore S] (ho : m.Opening) (h : Sound net₀ width m)
    (hw : Network.Wired net₀ width) (hs : Step m m') (hlast : m.phase ≠ .settling []) :
    m'.Opening := by
  cases hs with
  | change hp _ =>
      refine ho.frame (fun x hx _ => ⟨hx, rfl⟩) rfl (fun p => ?_) fun _ _ _ _ _ _ hp' => by cases hp'
      simp only [later, hp]
      exact id
  | note hp he => exact ho.note h hw hp he
  | noted hp =>
      refine ho.frame (fun x hx _ => ⟨hx, rfl⟩) rfl (fun p => ?_) fun _ _ _ _ _ _ hp' => by cases hp'
      simp only [later, hp]
      exact id
  | settle hp =>
      refine ho.frame (fun x hx _ => ⟨hx, rfl⟩) rfl (fun p => ?_) fun _ _ _ _ _ _ hp' => by cases hp'
      simp only [later, hp]
      exact id
  | take hp he =>
      obtain ⟨rfl, rfl⟩ := Network.ends_takeQueue he
      refine ho.frame (fun x hx _ => ⟨hx, rfl⟩) rfl (fun p => ?_) fun _ _ _ _ _ _ hp' => by cases hp'
      simp only [later, hp]
      exact List.mem_cons_of_mem _
  | skip hp he =>
      obtain ⟨hbegin, hnet⟩ := Network.ends_beginTuple he
      obtain ⟨-, hpending, -, -⟩ := (h.next hp).head
      obtain ⟨-, harena⟩ := Arena.begin_eq_none hpending hbegin
      rw [harena] at hnet
      subst hnet
      refine ho.frame (fun x hx _ => ?_) rfl (fun p => ?_) fun _ _ _ _ _ _ hp' => by cases hp'
      · have hx := (Arena.occupied_release x).mp hx
        exact ⟨hx.1, Arena.state_release_other hx.2⟩
      · simp only [later, hp]
        exact id
  | begin hp he => exact ho.begin h hw hp he
  | tell hp he => exact ho.tell h hw hp he
  | told hp _ =>
      refine ho.frame (fun x hx _ => ⟨hx, rfl⟩) rfl (fun p => ?_) fun _ _ _ _ _ _ hp' => by cases hp'
      simp only [later, hp]
      exact id
  | drop hp _ => cases ho.event _ _ _ _ _ _ hp
  | pass hp =>
      refine ho.frame (fun x hx _ => ⟨hx, rfl⟩) rfl (fun p => ?_) fun _ _ _ _ _ _ hp' => by cases hp'
      simp only [later, hp]
      exact id
  | settled hp => exact absurd hp hlast

/-- Who knows a tuple during the first settling has heard all about it, and the turn of the node that
made it has come. -/
theorem fresh (ho : m.Opening) (h : Sound net₀ width m) (hp : m.phase = .telling id e t rs ts ids)
    (hk : m.Knows r x) :
    m.Fresh r x ∧ m.owner x ∉ ids := by
  have hann := h.announced hp
  have hlater : m.later = ids := by simp only [later, hp]
  obtain rfl := ho.event _ _ _ _ _ _ hp
  have htold := hk.2.2
  simp only [Told, hp] at htold
  by_cases hxt : x = t
  · subst hxt
    rw [if_pos rfl] at htold
    have hseen : (m.net.arena.state x).isSeen := by
      rw [hann.state]
      rfl
    obtain ⟨hok, howner⟩ := ho.seen x hk.1 hseen
    refine ⟨⟨hk, hok, ?_⟩, hlater ▸ howner⟩
    simp only [Current, hp]
    exact fun _ => htold
  · rw [if_neg hxt] at htold
    obtain ⟨hok, howner⟩ := ho.seen x hk.1 htold
    refine ⟨⟨hk, hok, ?_⟩, hlater ▸ howner⟩
    simp only [Current, hp]
    exact fun heq => absurd heq hxt

end Opening

end Moment

end ConstraintScoring
