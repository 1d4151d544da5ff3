import ConstraintScoring.Proofs.Network.Feeding
import ConstraintScoring.Proofs.Network.Runs
import ConstraintScoring.Proofs.Node.Rows

/-!
# What the nodes of a network yield

A node that has told its readers everything is done. Once all nodes before it in the order of
settling are done, a node knows everything about its inputs, and the rows of its outputs are what
the query of its declaration yields over the facts, with groups that present what their accumulators
hold, whether or not its own readers have heard of them. This holds in the middle of settling, and of
all nodes when nothing waits. They are what the query denotes if the groups on the way are precise.
-/

namespace ConstraintScoring

variable {V S : Type}

namespace Network

section Upstream

variable {net₀ net net' : Network V S} {width : NodeId → Nat} {id id' x x' p p' : NodeId}
  {path : List Side} {σ : Side}

/-- From the first node one comes to the last one against the deliveries, entering each node on the
way by the side given. -/
def Upstream (net : Network V S) : NodeId → List Side → NodeId → Prop
  | id, [], x => x = id
  | id, σ :: path, x => ∃ p, (net.kindAt p).isBridge = false ∧ ⟨id, σ⟩ ∈ net.routesOf p ∧
      net.Upstream p path x

/-- In two networks of one kind a path leads to one node. -/
theorem Upstream.unique (h : net.Upstream id path x) (h' : net'.Upstream id path x')
    (hw : Wired net₀ width) (hlike : Like net₀ net) (hlike' : Like net₀ net') : x = x' := by
  induction path generalizing id with
  | nil => exact Eq.trans h (Eq.symm h')
  | cons σ path ih =>
      obtain ⟨p, hp, hr, h⟩ := h
      obtain ⟨p', hp', hr', h'⟩ := h'
      rw [hlike.isBridge] at hp
      rw [hlike'.isBridge] at hp'
      rw [hlike.routesOf] at hr
      rw [hlike'.routesOf] at hr'
      obtain rfl := hw.producer p p' _ hr hr' hp hp'
      exact ih h h'

variable [Cell V] [Std.TransOrd V]

/-- What the groups that lead to a node present. -/
def presents (net : Network V S) (id : NodeId) : Presentation V :=
  fun path collectors k bag vs => ∃ x n, net.Upstream id path x ∧ net.kindAt x = .group n ∧
    n.Presents collectors k bag vs

/-- The groups that lead to a node are precise. -/
def PreciseAt (net : Network V S) (id : NodeId) : Prop :=
  ∀ path x n, net.Upstream id path x → net.kindAt x = .group n → n.Precise

/-- The groups that lead to a node of one network can be compared with those that lead by the same
paths to a node of the other. -/
def ComparableAt (net net' : Network V S) (id id' : NodeId) : Prop :=
  ∀ path x x' n n', net.Upstream id path x → net'.Upstream id' path x' →
    net.kindAt x = .group n → net'.kindAt x' = .group n' → n.Comparable n'

/-- The groups of two networks can be compared node by node. -/
def Comparable (net net' : Network V S) : Prop :=
  ∀ id n n', net.kindAt id = .group n → net'.kindAt id = .group n' → n.Comparable n'

omit [Std.TransOrd V] in
theorem Comparable.at (h : net.Comparable net') (hw : Wired net₀ width) (hlike : Like net₀ net)
    (hlike' : Like net₀ net') (id : NodeId) : net.ComparableAt net' id id := by
  intro path x x' n n' hx hx' hn hn'
  obtain rfl := hx.unique hx' hw hlike hlike'
  exact h x n n' hn hn'

omit [Std.TransOrd V] in
theorem ComparableAt.feeder (h : net.ComparableAt net' id id')
    (hp : (net.kindAt p).isBridge = false) (hp' : (net'.kindAt p').isBridge = false)
    (hr : ⟨id, σ⟩ ∈ net.routesOf p) (hr' : ⟨id', σ⟩ ∈ net'.routesOf p') :
    net.ComparableAt net' p p' := fun path x x' n n' hx hx' =>
  h (σ :: path) x x' n n' ⟨p, hp, hr, hx⟩ ⟨p', hp', hr', hx'⟩

/-- Groups that can be compared present equal contributions alike. -/
theorem ComparableAt.agree (h : net.ComparableAt net' id id') :
    (net.presents id).Agree (net'.presents id') := by
  rintro path collectors hcollectors l l' bag bag' vs vs' hl hbag ⟨x, n, hx, hn, hshown⟩
    ⟨x', n', hx', hn', hshown'⟩
  exact (h path x x' n n' hx hx' hn hn').present hcollectors l l' bag bag' vs vs' hl hbag hshown
    hshown'

/-- Precise groups present what their collectors show. -/
theorem PreciseAt.shown (h : net.PreciseAt id) {path : List Side} {collectors : List (Collector V)}
    {k : Key V} {bag : Multiset (List (Contribution V))} {vs : List V}
    (hshown : net.presents id path collectors k bag vs) :
    Presentation.shown path collectors k bag vs := by
  obtain ⟨x, n, hx, hn, hshown⟩ := hshown
  exact hshown.shown (h path x n hx hn)

/-- All nodes that group keep their books, and no decimal places come into their sums. -/
def SumsWhole (net : Network V S) : Prop :=
  ∀ id n, net.kindAt id = .group n → n.GivesWhole ∧ ∃ h ρ, n.Books h ρ

theorem SumsWhole.precise (h : net.SumsWhole) (id : NodeId) : net.PreciseAt id := by
  intro path x n _ hn
  obtain ⟨hw, heard, ρ, hb⟩ := h x n hn
  exact hb.precise hw

theorem SumsWhole.comparableAt (h : net.SumsWhole) (h' : net'.SumsWhole) (id id' : NodeId) :
    net.ComparableAt net' id id' := by
  intro path x x' n n' _ _ hn hn'
  obtain ⟨hw, heard, ρ, hb⟩ := h x n hn
  obtain ⟨hw', heard', ρ', hb'⟩ := h' x' n' hn'
  exact hb.comparable hb' hw hw'

/-- Networks without decimal places in their sums can be compared. -/
theorem SumsWhole.comparable (h : net.SumsWhole) (h' : net'.SumsWhole) : net.Comparable net' :=
  fun id n n' hn hn' => h.comparableAt h' id id [] id id n n' rfl rfl hn hn'

end Upstream

end Network

/-- No collector of a graph gives decimal places to a sum. -/
def DeclarationGraph.GivesWhole (g : DeclarationGraph V S) : Prop :=
  ∀ id c keys collectors, declaredIn g.declarations id = some c →
    c.operation = .group keys collectors → ∀ x ∈ collectors, x.GivesWhole

section Operations

variable [Cell V] [Std.TransOrd V] [Score S] {g : DeclarationGraph V S} {domain : DomainModel V}
  {k : NodeKind V S} {op : Operation V} {h : Hearing} {ρ : TupleId → Row V}
  {inputs : Side → List TupleId} {facts : Table (FactKey V) V} {q q' q'' : Query V}

omit [Cell V] [Std.TransOrd V] [Score S] in
theorem SourceNode.accepts_eq_admits {n : SourceNode V} {c : FactClass V} {u : Bool}
    (h : n.assignedOnly = if u || !c.canBeUnassigned then none else some c) :
    n.accepts = c.admits u := by
  funext f
  unfold accepts FactClass.admits
  rw [h]
  cases u with
  | true => rfl
  | false =>
      unfold FactClass.canBeUnassigned FactClass.isAssigned
      cases hc : c.assigned <;> simp [hc]

omit [Score S] in
/-- A source that reflects the facts has the rows of its query. -/
theorem NodeKind.yields_source {P : Presentation V} (hperforms : Network.Performs g domain k op)
    (hq : op.query [] = some q) (hd : facts.Distinct)
    (hr : ∀ n, k = .source n → n.Reflects facts ρ) :
    q.Yields domain (factsIn facts) P (rowsOf ρ k.outputIds) := by
  cases op <;> cases hq
  obtain ⟨c, n, hclass, rfl, rfl, honly⟩ := hperforms
  obtain ⟨shown, hfiltered, hrows⟩ := (hr n rfl).shown hd
  rw [SourceNode.accepts_eq_admits honly] at hfiltered
  exact hrows ▸ .source hclass hfiltered

/-- An informed node with one input has the rows of its query. -/
theorem NodeKind.yields_unary {F : Multiset (Fact V)} {P : Presentation V} (hb : k.Books h ρ)
    (hi : h.Informed inputs) (hperforms : Network.Performs g domain k op)
    (hq : op.query [q'] = some q) (hbridge : k.isBridge = false) (hscore : ∀ n, k ≠ .score n)
    (hP : ∀ n, k = .group n → ∀ collectors l bag vs, n.Presents collectors l bag vs →
      P [] collectors l bag vs)
    (hq' : q'.Yields domain F (P.under .left) (rowsOf ρ (inputs .left))) :
    q.Yields domain F P (rowsOf ρ k.outputIds) := by
  cases op with
  | filter accepts =>
      cases hq
      obtain ⟨n, rfl, rfl⟩ := hperforms
      exact .filter hq' (FilterNode.Books.filtered hb hi)
  | map columns =>
      cases hq
      obtain ⟨n, rfl, rfl⟩ := hperforms
      exact .map hq' (MapNode.Books.mapped hb hi)
  | flattenLast expand =>
      cases hq
      obtain ⟨n, rfl, rfl⟩ := hperforms
      exact .flattenLast hq' (FlattenNode.Books.flattened hb hi)
  | group keys collectors =>
      cases hq
      obtain ⟨n, rfl, rfl, rfl⟩ := hperforms
      have hgrouped := (GroupNode.Books.grouped hb hi).mono fun l bag vs hshown =>
        hP n rfl _ l bag vs hshown.unnamed
      exact .group hq' hgrouped.unnamed
  | foreBridge side | aftBridge =>
      rw [show k = _ from hperforms] at hbridge
      cases hbridge
  | score constraint =>
      obtain ⟨c, n, -, rfl, -⟩ := hperforms
      exact absurd rfl (hscore n)
  | _ => cases hq

/-- An informed node with two inputs has the rows of its query. -/
theorem NodeKind.yields_binary {F : Multiset (Fact V)} {P : Presentation V} (hb : k.Books h ρ)
    (hi : h.Informed inputs) (hperforms : Network.Performs g domain k op)
    (hq : op.query [q', q''] = some q) (hn : k.outputIds.Nodup)
    (hq' : q'.Yields domain F (P.under .left) (rowsOf ρ (inputs .left)))
    (hq'' : q''.Yields domain F (P.under .right) (rowsOf ρ (inputs .right))) :
    q.Yields domain F P (rowsOf ρ k.outputIds) := by
  cases op with
  | concat =>
      cases hq
      obtain ⟨n, rfl⟩ := hperforms
      have hrows : rowsOf ρ n.outputs.values = _ := ConcatNode.Books.added hb hi
      exact hrows ▸ .concat hq' hq''
  | join indexer =>
      cases hq
      obtain ⟨n, rfl, rfl⟩ := hperforms
      exact .join hq' hq'' (JoinNode.Books.joined hb hi hn)
  | «exists» shouldExist indexer =>
      cases hq
      obtain ⟨n, rfl, rfl, rfl⟩ := hperforms
      exact .exists hq' hq'' (ExistsNode.Books.selected hb hi)
  | _ => cases hq

end Operations

namespace Moment

/-- The node has told its readers everything. -/
structure Done (m : Moment V S) (p : NodeId) : Prop where
  waiting : (m.waiting p).toList = []
  telling : ∀ t, m.telling? = some t → m.owner t ≠ p

/-- All nodes up to some place in the order of settling are done, and the sources know the facts. -/
structure SettledTo [Cell V] (m : Moment V S) (before : List NodeId) : Prop where
  order : ∃ later, m.net.order = before ++ later
  done : ∀ p ∈ before, m.Done p
  facts : ∀ id, m.factsFor id = m.facts

/-- The nodes before a node in the order of settling are among the given ones. -/
def Turn (m : Moment V S) (before : List NodeId) (id : NodeId) : Prop :=
  id ∈ before ∨ ∃ later, m.net.order = before ++ id :: later

open Classical in
/-- The tuples of the node that feeds a node on a side. -/
noncomputable def inputs (m : Moment V S) (id : NodeId) (σ : Side) : List TupleId :=
  if h : ∃ p, (m.net.kindAt p).isBridge = false ∧ ⟨id, σ⟩ ∈ m.net.routesOf p then
    m.net.outs h.choose
  else []

section Order

variable {m : Moment V S} {width : NodeId → Nat} {before : List NodeId} {p id : NodeId} {σ : Side}

theorem inputs_eq (hw : Network.Wired m.net width) (hp : (m.net.kindAt p).isBridge = false)
    (hr : ⟨id, σ⟩ ∈ m.net.routesOf p) : m.inputs id σ = m.net.outs p := by
  unfold inputs
  have h : ∃ p, (m.net.kindAt p).isBridge = false ∧ ⟨id, σ⟩ ∈ m.net.routesOf p := ⟨p, hp, hr⟩
  rw [dif_pos h, hw.producer h.choose p _ h.choose_spec.2 hr h.choose_spec.1 hp]

theorem mem_before {order before rest b after : List NodeId} {x : NodeId} (hn : order.Nodup)
    (hx : order = before ++ x :: rest) (hp : order = b ++ p :: after) (hmem : x ∈ after) :
    p ∈ before := by
  have hxp : x ≠ p := by
    rintro rfl
    rw [hp] at hn
    exact (List.nodup_cons.mp (List.nodup_append.mp hn).2.1).1 hmem
  rcases List.append_eq_append_iff.mp (hp.symm.trans hx) with ⟨a, rfl, ha⟩ | ⟨c, rfl, hc⟩
  · cases a with
    | nil => exact absurd (List.cons.inj ha).1.symm hxp
    | cons y a =>
        rw [(List.cons.inj ha).1]
        simp
  · cases c with
    | nil => exact absurd (List.cons.inj hc).1 hxp
    | cons y c =>
        obtain rfl := (List.cons.inj hc).1
        rw [hp] at hn
        have hne := (List.nodup_append.mp hn).2.2 x (by simp) x (List.mem_cons_of_mem p hmem)
        exact absurd rfl hne

/-- What feeds a node whose turn has come is done. -/
theorem Turn.feeder (hw : Network.Wired m.net width) (h : m.Turn before id)
    (hs : ∃ later, m.net.order = before ++ later) (hp : (m.net.kindAt p).isBridge = false)
    (hr : ⟨id, σ⟩ ∈ m.net.routesOf p) : p ∈ before := by
  have hlt : p < m.net.nodes.size := Network.lt_of_kindAt rfl hp
  obtain ⟨b, after, hb⟩ := List.append_of_mem (hw.mem_order p hlt)
  have hlater : id ∈ after := hw.later p ⟨id, σ⟩ b after hr hb
  rcases h with hid | ⟨later, hid⟩
  · obtain ⟨b', rest, rfl⟩ := List.append_of_mem hid
    obtain ⟨later, hlater'⟩ := hs
    rw [List.append_assoc, List.cons_append] at hlater'
    exact List.mem_append_left _ (mem_before hw.order_nodup hlater' hb hlater)
  · exact mem_before hw.order_nodup hid hb hlater

end Order

variable [Cell V] [Std.TransOrd V] [Score S] {net₀ : Network V S} {width : NodeId → Nat}
  {m : Moment V S} {before : List NodeId} {p id : NodeId} {σ : Side} {t : TupleId} {r : Route}

namespace Sound

omit [Std.TransOrd V] [Score S] [Cell V] in
theorem waiting_eq_of_done (hd : m.Done p) : ∀ t, t ∉ (m.waiting p).toList := fun t ht => by
  rw [hd.waiting] at ht
  cases ht

/-- The tuples of a node that is done are its outputs, and no change of them is staged. -/
theorem of_done (h : Sound net₀ width m) (hd : m.Done p) (ht : m.net.arena.Occupied t)
    (howner : m.owner t = p) : t ∈ m.net.outs p := by
  rcases h.holdings.covered t ht with hout | hwaiting | htelling
  · exact howner ▸ hout
  · exact absurd (howner ▸ hwaiting) (waiting_eq_of_done hd t)
  · exact absurd howner (hd.telling t htelling)

theorem state_of_done (h : Sound net₀ width m) (hd : m.Done p) (ht : t ∈ m.net.outs p) :
    m.net.arena.state t = .ok := by
  have hactive := (h.holdings.tended p).active t ht
  have hpending : ¬(m.net.arena.state t).isPending := fun hp =>
    waiting_eq_of_done hd t ((h.holdings.tended p).queued t ht hp)
  cases hs : m.net.arena.state t <;> rw [hs] at hactive hpending <;>
    simp_all [TupleState.isActive, TupleState.isPending]

theorem told_of_done (h : Sound net₀ width m) (hd : m.Done p) (ht : t ∈ m.net.outs p) (r : Route) :
    m.Told r t ∧ m.Current r t := by
  have hstate := h.state_of_done hd ht
  have hne : ∀ x, m.telling? = some x → t ≠ x := fun x hx htx =>
    hd.telling x hx (htx ▸ h.holdings.owner_out p t ht)
  unfold telling? at hne
  unfold Told Current
  cases hphase : m.phase with
  | telling _ e x _ _ _ =>
      rw [hphase] at hne
      have hx := hne x rfl
      cases e <;> simp [hstate, TupleState.isSeen, hx]
  | _ => simp [hstate, TupleState.isSeen]

theorem fresh_of_done (h : Sound net₀ width m) (hd : m.Done p) (ht : t ∈ m.net.outs p)
    (hr : r ∈ m.net.routesOf p) : m.Fresh r t := by
  obtain ⟨htold, hcurrent⟩ := h.told_of_done hd ht r
  exact ⟨⟨h.holdings.occupied_out ht, (h.holdings.owner_out p t ht).symm ▸ hr, htold⟩,
    h.state_of_done hd ht, hcurrent⟩

/-- A node whose feeders are done knows everything about its inputs. -/
theorem informed (h : Sound net₀ width m) (hw : Network.Wired m.net width)
    (hs : ∃ later, m.net.order = before ++ later) (hd : ∀ p ∈ before, m.Done p)
    (ht : m.Turn before id) : (m.hearing id).Informed (m.inputs id) := by
  have hfeeder : ∀ {p σ}, (m.net.kindAt p).isBridge = false → ⟨id, σ⟩ ∈ m.net.routesOf p →
      m.Done p := fun hp hr => hd _ (ht.feeder hw hs hp hr)
  have hinputs : ∀ σ, (∃ p, (m.net.kindAt p).isBridge = false ∧ ⟨id, σ⟩ ∈ m.net.routesOf p ∧
      m.inputs id σ = m.net.outs p) ∨ m.inputs id σ = [] := by
    intro σ
    by_cases hex : ∃ p, (m.net.kindAt p).isBridge = false ∧ ⟨id, σ⟩ ∈ m.net.routesOf p
    · obtain ⟨p, hp, hr⟩ := hex
      exact Or.inl ⟨p, hp, hr, inputs_eq hw hp hr⟩
    · exact Or.inr (dif_neg hex)
  refine ⟨fun σ => ?_, fun σ t => ?_, fun σ t hmem => ?_⟩
  · rcases hinputs σ with ⟨p, -, -, heq⟩ | heq
    · exact heq ▸ (h.holdings.tended p).nodup
    · exact heq ▸ List.nodup_nil
  · constructor
    · rintro ⟨hocc, hr, -⟩
      have hp := h.maker t hocc
      rw [inputs_eq hw hp hr]
      exact h.of_done (hfeeder hp hr) hocc rfl
    · intro hmem
      rcases hinputs σ with ⟨p, hp, hr, heq⟩ | heq
      · exact (h.fresh_of_done (hfeeder hp hr) (heq ▸ hmem) hr).1
      · rw [heq] at hmem
        cases hmem
  · rcases hinputs σ with ⟨p, hp, hr, heq⟩ | heq
    · exact h.fresh_of_done (hfeeder hp hr) (heq ▸ hmem) hr
    · rw [heq] at hmem
      cases hmem

section Yields

variable {g : DeclarationGraph V S} {domain : DomainModel V} {a : NetworkNode V S} {q : Query V}

omit [Cell V] [Std.TransOrd V] in
/-- A node performs the operation of its declaration at every moment. -/
theorem performs (hlike : Network.Like net₀ m.net) (hc : Network.Compiled g domain net₀)
    (ha : net₀.nodes[id]? = some a) : ∃ d, declaredIn g.declarations a.decl = some d ∧
      Network.Performs g domain (m.net.kindAt id) d.operation := by
  obtain ⟨d, hd, hblank, -⟩ := hc.candidate ha
  refine ⟨d, hd, Network.performs_of_blank ?_⟩
  rwa [hlike.blank id, hblank.blank]

/-- At no moment are there decimal places in sums of a graph that gives none. -/
theorem sumsWhole (h : Sound net₀ width m) (hc : Network.Compiled g domain net₀)
    (hg : g.GivesWhole) : m.net.SumsWhole := by
  intro id n hn
  obtain ⟨a, ha, -⟩ := Network.node_of_kindAt hn rfl
  obtain ⟨a₀, ha₀, -⟩ := h.like.node ha
  obtain ⟨d, hd, hperforms⟩ := performs h.like hc ha₀
  rw [hn] at hperforms
  have hbooks := h.books id
  rw [hn] at hbooks
  exact ⟨hg _ d _ _ hd hperforms.of_group, _, _, hbooks⟩

/-- What a node hears of on a side has the rows that the query of its feeder yields. -/
theorem feed_yields {facts : Multiset (Fact V)} (h : Sound net₀ width m)
    (hw : Network.Wired net₀ width) (hlater : ∃ later, m.net.order = before ++ later)
    (ht : m.Turn before id) (hfeeds : Network.Compiled.Feeds g net₀ id σ q p)
    (hyields : ∀ a, net₀.nodes[p]? = some a → m.Turn before p → ¬net₀.IsBridge p →
      (∀ n, net₀.kindAt p ≠ .score n) → Unfolds (declaredIn g.declarations) a.decl q →
      q.Yields domain facts (m.net.presents p) (rowsOf m.net.arena.row (m.net.outs p))) :
    q.Yields domain facts ((m.net.presents id).under σ)
      (rowsOf m.net.arena.row (m.inputs id σ)) := by
  have hwm := hw.like h.like
  have hbridge : (m.net.kindAt p).isBridge = false := by
    rw [h.like.isBridge]
    exact Bool.eq_false_iff.mpr hfeeds.maker
  have hr : ⟨id, σ⟩ ∈ m.net.routesOf p := h.like.routesOf p ▸ hfeeds.route
  obtain ⟨a, ha, hq⟩ := hfeeds.unfolds
  rw [inputs_eq hwm hbridge hr]
  refine (hyields a ha (Or.inl (ht.feeder hwm hlater hbridge hr)) hfeeds.maker hfeeds.inner
    hq).mono fun path collectors k bag vs hshown => ?_
  obtain ⟨x, n, hx, hshown⟩ := hshown
  exact ⟨x, n, ⟨p, hbridge, hr, hx⟩, hshown⟩

/-- The outputs of a node whose turn has come have the rows that its query yields, with groups that
present what they hold. -/
theorem yields (h : Sound net₀ width m) (hw : Network.Wired net₀ width)
    (hc : Network.Compiled g domain net₀) (hf : Formed g.declarations) (hs : m.SettledTo before)
    (ha : net₀.nodes[id]? = some a) (ht : m.Turn before id)
    (hbridge : ¬net₀.IsBridge id) (hscore : ∀ n, net₀.kindAt id ≠ .score n)
    (hq : Unfolds (declaredIn g.declarations) a.decl q) :
    q.Yields domain (factsIn m.facts) (m.net.presents id)
      (rowsOf m.net.arena.row (m.net.outs id)) := by
  -- By induction on the node: the nodes that feed it stand before it and have had their turns.
  induction id using Nat.strong_induction_on generalizing a q with
  | _ id ih =>
      have hi := h.informed (hw.like h.like) hs.order hs.done ht
      obtain ⟨d, hd, hperforms⟩ := performs h.like hc ha
      have hfed : ∀ {σ p q}, Network.Compiled.Feeds g net₀ id σ q p →
          q.Yields domain (factsIn m.facts) ((m.net.presents id).under σ)
            (rowsOf m.net.arena.row (m.inputs id σ)) := fun hfeeds =>
        h.feed_yields hw hs.order ht hfeeds fun b hb htp hbp hsp hqp =>
          ih _ hfeeds.lt hb htp hbp hsp hqp
      have hmaker : (m.net.kindAt id).isBridge = false := by
        rw [h.like.isBridge]
        exact Bool.eq_false_iff.mpr hbridge
      have hinner : ∀ n, m.net.kindAt id ≠ .score n := by
        intro n hn
        have hblank := h.like.blank id
        rw [hn] at hblank
        cases hk : net₀.kindAt id with
        | score n' => exact hscore n' hk
        | _ => rw [hk] at hblank; cases hblank
      cases hq with
      | leaf hdecl hparents hop =>
          obtain rfl := Option.some.inj (hd.symm.trans hdecl)
          exact NodeKind.yields_source hperforms hop h.facts_distinct fun n hn =>
            hs.facts id ▸ h.reflects id n hn
      | unary hdecl hparents hparent hop =>
          obtain rfl := Option.some.inj (hd.symm.trans hdecl)
          obtain ⟨p, hfeeds⟩ := hc.feeds_one hf hbridge ha hd hparents hparent
          exact NodeKind.yields_unary (h.books id) hi hperforms hop hmaker hinner
            (fun n hn collectors l bag vs hshown => ⟨id, n, rfl, hn, hshown⟩) (hfed hfeeds)
      | binary hdecl hparents hl hr hop =>
          obtain rfl := Option.some.inj (hd.symm.trans hdecl)
          obtain ⟨⟨p, hfeeds⟩, p', hfeeds'⟩ := hc.feeds_two hf hbridge ha hd hparents hl hr
          exact NodeKind.yields_binary (h.books id) hi hperforms hop (h.holdings.tended id).nodup
            (hfed hfeeds) (hfed hfeeds')

end Yields

end Sound

end Moment

end ConstraintScoring
