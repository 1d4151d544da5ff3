import ConstraintScoring.Proofs.Network.Reach

/-!
# The rounds of settling

Settling gives every node one turn, in the order of the ranks. In its turn a node tells its readers of
the changes that were staged when the turn came, one after the other, and each reader of each change
once. The readers have their own turns later, so nobody hears of anything after its turn.
-/

namespace ConstraintScoring

variable {V S : Type}

/-- One reader is told of one event of a tuple. -/
structure Delivery where
  event : Event
  tuple : TupleId
  route : Route

/-- A node, the network when the turn of the node came, and what the node told its readers. -/
structure Round (V S : Type) where
  node : NodeId
  before : Network V S
  deliveries : List Delivery

namespace Network

/-- The changes staged of some tuples. -/
def changes (net : Network V S) (ts : List TupleId) : List (Event × TupleId) :=
  ts.filterMap fun t => (net.arena.begin t).1.map (·, t)

/-- Every reader of a node is told of every change. -/
def spread (net : Network V S) (id : NodeId) (cs : List (Event × TupleId)) : List Delivery :=
  cs.flatMap fun c => (net.routesOf id).map fun r => ⟨c.1, c.2, r⟩

section Relations

variable [Cell V] [Score S]

/-- The network makes deliveries, one after the other. -/
inductive Delivers : Network V S → List Delivery → Network V S → Prop where
  | nil {net} : Delivers net [] net
  | cons {net net₁ net' d ds} : Ends (deliver d.event d.tuple d.route) net () net₁ →
      Delivers net₁ ds net' → Delivers net (d :: ds) net'

/-- The network works through tuples that waited: a tuple taken back before it was seen is dropped,
and of all others the readers are told what happened. -/
inductive WorksThrough : Network V S → List TupleId → List Delivery → Network V S → Prop where
  | nil {net} : WorksThrough net [] [] net
  | skip {net net₁ net' t ts ds} : Ends (beginTuple t) net none net₁ →
      WorksThrough net₁ ts ds net' → WorksThrough net (t :: ts) ds net'
  | tell {net net₁ net₂ net₃ net' e t ts told ds} : Ends (beginTuple t) net (some e) net₁ →
      Delivers net₁ told net₂ →
      Ends (if e = .retract then releaseTuple t else return ()) net₂ () net₃ →
      WorksThrough net₃ ts ds net' → WorksThrough net (t :: ts) (told ++ ds) net'

/-- The network gives each of the nodes its turn. -/
inductive TakesTurns : Network V S → List NodeId → List (Round V S) → Network V S → Prop where
  | nil {net} : TakesTurns net [] [] net
  | cons {net net₁ net₂ net' id queue ids ds rounds} : Ends (takeQueue id) net queue net₁ →
      WorksThrough net₁ queue.toList ds net₂ → TakesTurns net₂ ids rounds net' →
      TakesTurns net (id :: ids) (⟨id, net, ds⟩ :: rounds) net'

end Relations

section

variable {net net' net'' : Network V S} {id : NodeId} {ts : List TupleId} {e : Event} {t : TupleId}

theorem mem_changes {c : Event × TupleId} :
    c ∈ net.changes ts ↔ c.2 ∈ ts ∧ net.arena.state c.2 = c.1.staged := by
  unfold changes
  rw [List.mem_filterMap]
  constructor
  · rintro ⟨t, ht, hc⟩
    obtain ⟨e, he, rfl⟩ := Option.map_eq_some_iff.mp hc
    exact ⟨ht, (Arena.begin_eq_some.mp (Prod.ext he rfl)).1⟩
  · rintro ⟨ht, hstate⟩
    refine ⟨c.2, ht, Option.map_eq_some_iff.mpr ⟨c.1, ?_, rfl⟩⟩
    exact congrArg Prod.fst (Arena.begin_eq_some.mpr ⟨hstate, rfl⟩)

theorem changes_nodup (h : ts.Nodup) : (net.changes ts).Nodup := by
  refine h.filterMap fun t t' c hc hc' => ?_
  obtain ⟨e, -, rfl⟩ := Option.map_eq_some_iff.mp hc
  obtain ⟨e', -, heq⟩ := Option.map_eq_some_iff.mp hc'
  exact (congrArg Prod.snd heq).symm

theorem mem_spread {cs : List (Event × TupleId)} {d : Delivery} :
    d ∈ net.spread id cs ↔ (d.event, d.tuple) ∈ cs ∧ d.route ∈ net.routesOf id := by
  unfold spread
  rw [List.mem_flatMap]
  constructor
  · rintro ⟨c, hc, hd⟩
    obtain ⟨r, hr, rfl⟩ := List.mem_map.mp hd
    exact ⟨hc, hr⟩
  · rintro ⟨hc, hr⟩
    exact ⟨_, hc, List.mem_map.mpr ⟨d.route, hr, rfl⟩⟩

theorem spread_nodup {cs : List (Event × TupleId)} (h : cs.Nodup) (hr : (net.routesOf id).Nodup) :
    (net.spread id cs).Nodup := by
  unfold spread
  refine List.nodup_flatMap.mpr ⟨fun c _ => hr.map fun r r' heq => (Delivery.mk.inj heq).2.2, ?_⟩
  refine h.imp fun {c c'} hne d hd hd' => hne ?_
  obtain ⟨r, -, rfl⟩ := List.mem_map.mp hd
  obtain ⟨r', -, heq⟩ := List.mem_map.mp hd'
  obtain ⟨he, ht, -⟩ := Delivery.mk.inj heq
  exact Prod.ext he.symm ht.symm

theorem spread_congr {cs : List (Event × TupleId)} (h : net'.routesOf id = net.routesOf id) :
    net'.spread id cs = net.spread id cs := by
  unfold spread
  rw [h]

theorem spread_append {cs cs' : List (Event × TupleId)} :
    net.spread id (cs ++ cs') = net.spread id cs ++ net.spread id cs' := List.flatMap_append

theorem changes_congr (h : ∀ t ∈ ts, net'.arena.state t = net.arena.state t) :
    net'.changes ts = net.changes ts := by
  refine List.filterMap_congr fun t ht => ?_
  unfold Arena.begin
  rw [h t ht]
  cases net.arena.state t <;> rfl

end

end Network

/-- The number of changes that the node told its readers of. -/
def Round.changes (round : Round V S) : Nat :=
  (round.before.changes (round.before.queue round.node).toList).length

namespace Moment.Sound

variable [Cell V] [Std.TransOrd V] [Score S] [LawfulScore S] {net₀ net : Network V S}
  {width : NodeId → Nat} {m : Moment V S} {id : NodeId} {e : Event} {t x : TupleId} {r : Route}
  {rs : List Route} {ts : List TupleId} {ids : List NodeId}

/-- The work of a reader leaves the tuples alone that wait at the node whose turn it is. -/
theorem state_waiting (h : Sound net₀ width m) (hw : Network.Wired net₀ width)
    (hp : m.phase = .telling id e t (r :: rs) ts ids)
    (he : Network.Ends (Network.deliver e t r) m.net () net) (hx : x ∈ ts) :
    net.arena.state x = m.net.arena.state x := by
  have hr := h.ready hw hp
  have hspec := h.delivered hw hr
  rw [he] at hspec
  obtain ⟨k', s', ledger, hheard, hworked, -⟩ := hspec
  have hwaits : x ∈ (m.waiting id).toList := by
    simp only [waiting, hp, Function.update_self]
    exact hx
  rw [hworked.arena]
  refine (hheard.work.kept hr.clear.tended).state_other x (h.holdings.occupied_waiting hwaits)
    fun hout => hr.other ?_
  exact (h.holdings.owner_out r.node x hout).symm.trans (h.holdings.owner_waiting id x hwaits)

end Moment.Sound

end ConstraintScoring
