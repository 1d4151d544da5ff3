import ConstraintScoring.Proofs.Coin
import ConstraintScoring.Proofs.Node.Hearing

/-!
# The life of a node

A node hears of events of tuples that are not its own, and its own staged changes are handed on one
after another. In between the rest of the network works, which may replace the row of a tuple long
before the node is told of it. The scenes of a life are all that a node can come to in this way, in
whatever order things happen. What nodes of a kind keep up at every event they keep up for life.
-/

namespace ConstraintScoring

/-- The hearing of a node that was told of nothing. -/
def Hearing.nothing : Hearing := ⟨fun _ _ => False, fun _ _ => False, fun _ _ => id⟩

/-- How nodes of a kind react to events, and on which sides they hear of tuples. -/
structure Reader (V N : Type) where
  onEvent : N → Side → Event → TupleId → Stage V N
  hears : Side → Prop

/-- A node between two steps of its life. -/
structure Scene (V N : Type) where
  node : N
  staging : Staging V
  heard : Hearing
  /-- The tuples that the node has made and not given up. -/
  own : TupleId → Prop

namespace Scene

variable {V N : Type}

def row (c : Scene V N) : TupleId → Row V := c.staging.arena.row

/-- A node that has heard of nothing, among tuples of others. -/
def born (start : N) (a : Arena V) : Scene V N := ⟨start, ⟨a, #[]⟩, .nothing, fun _ => False⟩

/-- An active tuple that the node has made. -/
def Output (c : Scene V N) (t : TupleId) : Prop :=
  c.own t ∧ (c.staging.arena.state t).isActive

/-- The node was told of everything that happened to its inputs. -/
def UpToDate (c : Scene V N) : Prop := ∀ side t, c.heard.known side t → c.heard.fresh side t

/-- The node may be told of an event: the tuple is there, and the event fits what the node knows. -/
structure Admits (c : Scene V N) (side : Side) (e : Event) (t : TupleId) : Prop where
  expects : c.heard.Expects side e t
  occupied : c.staging.arena.Occupied t
  foreign : ¬c.own t

/-- After the node was told of an event. -/
def told (c : Scene V N) (side : Side) (e : Event) (t : TupleId) (node : N) (s : Staging V) :
    Scene V N where
  node
  staging := s
  heard := c.heard.hear side e t
  own x := c.own x ∨ s.arena.Occupied x ∧ ¬c.staging.arena.Occupied x

/-- What the rest of the network may do: the node's own tuples stay as they are, its inputs stay
there, and an input whose row is replaced is no longer fresh. -/
structure Elsewhere (c : Scene V N) (a : Arena V) (h : Hearing) : Prop where
  valid : a.Valid
  occupied : ∀ side t, c.heard.known side t → a.Occupied t
  own_state : ∀ t, c.own t → a.state t = c.staging.arena.state t
  own_row : ∀ t, c.own t → a.row t = c.staging.arena.row t
  known : ∀ side t, c.heard.known side t ↔ h.known side t
  fresh : ∀ side t, h.fresh side t → c.heard.fresh side t ∧ a.row t = c.staging.arena.row t

def beside (c : Scene V N) (a : Arena V) (h : Hearing) : Scene V N :=
  { c with staging := ⟨a, c.staging.queue⟩, heard := h }

/-- After the change of one of the node's tuples was handed on; one that was taken back is given
up. -/
def handed (c : Scene V N) (t : TupleId) : Scene V N :=
  { c with
    staging := ⟨(c.staging.arena.begin t).2, (c.staging.queue.toList.erase t).toArray⟩
    own := fun x => c.own x ∧ (x = t → (c.staging.arena.state t).isActive) }

inductive Step (r : Reader V N) (c : Scene V N) : Scene V N → Prop where
  | hear {side e t node s} : r.hears side → c.Admits side e t →
      (r.onEvent c.node side e t).run.run c.staging = (.ok node, s) →
      Step r c (c.told side e t node s)
  | elsewhere {a h} : c.Elsewhere a h → Step r c (c.beside a h)
  | handOn {t} : t ∈ c.staging.queue.toList → Step r c (c.handed t)

end Scene

namespace Reader

variable {V N : Type}

/-- The scenes in the life of a node that starts as given. -/
inductive Lives (r : Reader V N) (start : N) : Scene V N → Prop where
  | born {a : Arena V} : a.Valid → Lives r start (.born start a)
  | step {c c'} : Lives r start c → Scene.Step r c c' → Lives r start c'

/-- What nodes of a kind keep up: their books agree with what they have heard, and nothing stops
them but certain faults. -/
structure Keeps (r : Reader V N) (outs : N → List TupleId)
    (Books : N → Hearing → (TupleId → Row V) → Prop) (Raises : Fault → Prop) : Prop where
  frame : ∀ {n h h' ρ ρ'}, Books n h ρ → (∀ side t, h.known side t ↔ h'.known side t) →
    (∀ side t, h'.fresh side t → h.fresh side t ∧ ρ' t = ρ t) → (∀ x ∈ outs n, ρ' x = ρ x) →
    Books n h' ρ'
  onEvent : ∀ {n h} {s : Staging V} {side e t}, r.hears side → Books n h s.arena.row →
    h.Expects side e t → s.Clear (outs n) (h.inputs side t) →
    (r.onEvent n side e t).Ensures s (fun n' s' =>
      Staging.Work (fun _ => True) s (outs n) s' (outs n') ∧
        Books n' (h.hear side e t) s'.arena.row) Raises

end Reader

namespace Scene

variable {V N : Type} {r : Reader V N} {outs : N → List TupleId}
  {Books : N → Hearing → (TupleId → Row V) → Prop} {Raises : Fault → Prop} {c c' : Scene V N}
  {side : Side} {e : Event} {t : TupleId} {node : N} {s : Staging V} {a : Arena V} {h : Hearing}

/-- The scene is in order: the books hold, and the node's own tuples are its outputs and those that
wait to be handed on. -/
structure Kept (outs : N → List TupleId) (Books : N → Hearing → (TupleId → Row V) → Prop)
    (c : Scene V N) : Prop where
  books : Books c.node c.heard c.row
  clear : c.staging.Clear (outs c.node) fun t => ∃ side, c.heard.known side t
  own_iff : ∀ t, c.own t ↔ t ∈ outs c.node ∨ t ∈ c.staging.queue.toList
  foreign : ∀ side t, c.heard.known side t → ¬c.own t

namespace Kept

theorem tended (h : Kept outs Books c) : c.staging.Tended (outs c.node) := h.clear.tended

theorem output_iff (h : Kept outs Books c) : c.Output t ↔ t ∈ outs c.node := by
  constructor
  · rintro ⟨hown, hactive⟩
    exact ((h.own_iff t).mp hown).elim id fun hq => h.tended.backed t hq hactive
  · exact fun ht => ⟨(h.own_iff t).mpr (Or.inl ht), h.tended.active t ht⟩

/-- What the node may read while it hears of an event. -/
theorem clear_inputs (h : Kept outs Books c) (ha : c.Admits side e t) :
    c.staging.Clear (outs c.node) (c.heard.inputs side t) := by
  have hapart : ∀ x, ¬c.own x → x ∉ outs c.node := fun x hx hO =>
    hx ((h.own_iff x).mpr (Or.inl hO))
  refine ⟨h.tended, ?_, ?_⟩
  · rintro x ⟨σ, ⟨rfl, rfl⟩ | hx⟩
    · exact ha.occupied
    · exact h.clear.occupied x ⟨σ, hx⟩
  · rintro x ⟨σ, ⟨rfl, rfl⟩ | hx⟩
    · exact hapart x ha.foreign
    · exact hapart x (h.foreign σ x hx)

/-- A node in order reacts to an event, or one of the faults of its kind stops it. -/
theorem proceeds (h : Kept outs Books c) (hr : r.Keeps outs Books Raises) (hside : r.hears side)
    (ha : c.Admits side e t) :
    (∃ node s, (r.onEvent c.node side e t).run.run c.staging = (.ok node, s)) ∨
      ∃ f s, (r.onEvent c.node side e t).run.run c.staging = (.error f, s) ∧ Raises f := by
  have hensures := hr.onEvent hside h.books ha.expects (h.clear_inputs ha)
  rcases hrun : (r.onEvent c.node side e t).run.run c.staging with ⟨f | node, s⟩
  · exact Or.inr ⟨f, s, rfl, hensures.error hrun⟩
  · exact Or.inl ⟨node, s, rfl⟩

theorem told (h : Kept outs Books c) (hr : r.Keeps outs Books Raises) (hside : r.hears side)
    (ha : c.Admits side e t)
    (hrun : (r.onEvent c.node side e t).run.run c.staging = (.ok node, s)) :
    Kept outs Books (c.told side e t node s) := by
  have hc := h.clear_inputs ha
  obtain ⟨w, hbooks⟩ := (hr.onEvent hside h.books ha.expects hc).ok hrun
  have hk := w.kept h.tended
  have hinput : ∀ σ x, (c.heard.hear side e t).known σ x → c.heard.inputs side t x := by
    intro σ x hx
    cases e with
    | insert | update => exact ⟨σ, hx⟩
    | retract => exact ⟨σ, Or.inr hx.1⟩
  have hforeign : ∀ x, c.heard.inputs side t x → ¬c.own x := by
    rintro x ⟨σ, ⟨rfl, rfl⟩ | hx⟩
    · exact ha.foreign
    · exact h.foreign σ x hx
  refine ⟨hbooks, (hc.work w).mono fun x ⟨σ, hx⟩ => hinput σ x hx, fun x => ?_, fun σ x hx => ?_⟩
  · constructor
    · rintro (hx | ⟨hx, hnew⟩)
      · by_cases hO : x ∈ outs node
        · exact Or.inl hO
        · exact Or.inr (((h.own_iff x).mp hx).elim (fun hx => hk.dropped x hx hO) (hk.queue x))
      · exact Or.inr (hk.made x hx hnew).2.2
    · intro hx
      have hocc : s.arena.Occupied x := hx.elim hk.tended.occupied hk.tended.occupied_of_queued
      have horigin : x ∈ c.staging.queue.toList ∨ x ∈ outs c.node ∨ ¬c.staging.arena.Occupied x :=
        hx.elim (fun hx => Or.inr (hk.outputs x hx)) (hk.queue_origin x)
      rcases horigin with hq | hO | hnew
      · exact Or.inl ((h.own_iff x).mpr (Or.inr hq))
      · exact Or.inl ((h.own_iff x).mpr (Or.inl hO))
      · exact Or.inr ⟨hocc, hnew⟩
  · have hx := hinput σ x hx
    exact fun hown => hown.elim (hforeign x hx) fun hnew => hnew.2 (hc.occupied x hx)

theorem beside (hk : Kept outs Books c) (hr : r.Keeps outs Books Raises) (he : c.Elsewhere a h) :
    Kept outs Books (c.beside a h) := by
  have hown : ∀ x, x ∈ outs c.node ∨ x ∈ c.staging.queue.toList → c.own x := fun x hx =>
    (hk.own_iff x).mpr hx
  refine ⟨hr.frame hk.books he.known he.fresh fun x hx => he.own_row x (hown x (Or.inl hx)),
    ⟨hk.tended.congr he.valid (fun x hx => he.own_state x (hown x (Or.inl hx)))
      fun x hx => he.own_state x (hown x (Or.inr hx)), ?_, ?_⟩, hk.own_iff, ?_⟩
  · rintro x ⟨σ, hx⟩
    exact he.occupied σ x ((he.known σ x).mpr hx)
  · rintro x ⟨σ, hx⟩
    exact hk.clear.apart x ⟨σ, (he.known σ x).mpr hx⟩
  · exact fun σ x hx => hk.foreign σ x ((he.known σ x).mpr hx)

end Kept

end Scene

/-- One tuple less waits once its change begins to be told. -/
theorem Staging.Tended.handed {V : Type} {s : Staging V} {O : List TupleId} {t : TupleId}
    (h : s.Tended O) (ht : t ∈ s.queue.toList) :
    Staging.Tended ⟨(s.arena.begin t).2, (s.queue.toList.erase t).toArray⟩ O ∧
      (∀ x, x ≠ t → (s.arena.begin t).2.row x = s.arena.row x) ∧
      (t ∈ O → (s.arena.begin t).2.row t = s.arena.row t) ∧
      ∀ x, x ≠ t → s.arena.Occupied x → (s.arena.begin t).2.Occupied x := by
  have hocc := h.occupied_of_queued ht
  have hpending := h.queue_pending t ht
  obtain ⟨e, a, hbegin⟩ : ∃ e a, s.arena.begin t = (e, a) := ⟨_, _, rfl⟩
  have hstate : ∀ x, x ≠ t → a.state x = s.arena.state x := fun x hx =>
    Arena.state_begin hocc hpending hbegin hx
  -- What is known of the tuple itself, by the event that its staged change stands for.
  have hself : a.Valid ∧ (t ∈ O → a.state t = .ok) ∧ (∀ x, x ≠ t → a.row x = s.arena.row x) ∧
      (t ∈ O → a.row t = s.arena.row t) ∧ ∀ x, x ≠ t → s.arena.Occupied x → a.Occupied x := by
    cases e with
    | none =>
        obtain ⟨haborting, rfl⟩ := Arena.begin_eq_none hpending hbegin
        have hnot : t ∉ O := fun hO => by
          have ha := h.active t hO
          rw [haborting] at ha
          cases ha
        exact ⟨h.valid.release hocc, fun hO => absurd hO hnot,
          fun x hx => Arena.row_release_other hx, fun hO => absurd hO hnot,
          fun x hx hxo => (Arena.occupied_release x).mpr ⟨hxo, hx⟩⟩
    | some e =>
        obtain ⟨hstaged, rfl⟩ := Arena.begin_eq_some.mp hbegin
        refine ⟨h.valid.setState hocc, fun hO => ?_, fun x _ => Arena.row_setState x,
          fun _ => Arena.row_setState t, fun x _ => (Arena.occupied_setState x).mpr⟩
        have ha := h.active t hO
        rw [hstaged] at ha
        rw [Arena.state_setState hocc.1, if_pos rfl]
        cases e with
        | insert | update => rfl
        | retract => cases ha
  obtain ⟨hvalid, hok, hrow, hrowt, hoccupied⟩ := hself
  rw [hbegin]
  refine ⟨h.take hvalid hstate (fun hO => ?_) (h.queue_nodup.erase t) fun x =>
    h.queue_nodup.mem_erase_iff, hrow, hrowt, hoccupied⟩
  rw [hok hO]
  exact ⟨rfl, rfl⟩

namespace Scene

variable {V N : Type} {r : Reader V N} {outs : N → List TupleId}
  {Books : N → Hearing → (TupleId → Row V) → Prop} {Raises : Fault → Prop} {c c' : Scene V N}
  {t : TupleId}

theorem Kept.handed (h : Kept outs Books c) (hr : r.Keeps outs Books Raises)
    (ht : t ∈ c.staging.queue.toList) : Kept outs Books (c.handed t) := by
  obtain ⟨htended, hrow, hrowt, hocc⟩ := h.tended.handed ht
  have hown : c.own t := (h.own_iff t).mpr (Or.inr ht)
  have hne : ∀ σ x, c.heard.known σ x → x ≠ t := fun σ x hx hxt => h.foreign σ x hx (hxt ▸ hown)
  refine ⟨hr.frame h.books (fun _ _ => Iff.rfl) (fun σ x hx => ⟨hx, ?_⟩) fun x hx => ?_,
    ⟨htended, ?_, h.clear.apart⟩, fun x => ?_, fun σ x hx hx' => h.foreign σ x hx hx'.1⟩
  · exact hrow x (hne σ x (c.heard.known_of_fresh σ x hx))
  · by_cases hxt : x = t
    · subst hxt
      exact hrowt hx
    · exact hrow x hxt
  · rintro x ⟨σ, hx⟩
    exact hocc x (hne σ x hx) (h.clear.occupied x ⟨σ, hx⟩)
  · change c.own x ∧ _ ↔ x ∈ outs c.node ∨ x ∈ c.staging.queue.toList.erase t
    rw [h.tended.queue_nodup.mem_erase_iff, h.own_iff]
    by_cases hxt : x = t
    · subst hxt
      have hactive : (c.staging.arena.state x).isActive ↔ x ∈ outs c.node :=
        ⟨h.tended.backed x ht, h.tended.active x⟩
      simp [ht, hactive]
    · simp [hxt]

theorem Kept.step (h : Kept outs Books c) (hr : r.Keeps outs Books Raises) (hs : Step r c c') :
    Kept outs Books c' := by
  cases hs with
  | hear hside ha hrun => exact h.told hr hside ha hrun
  | elsewhere he => exact h.beside hr he
  | handOn ht => exact h.handed hr ht

end Scene

namespace Scene

variable {V N : Type} {r : Reader V N} {outs : N → List TupleId}
  {Books : N → Hearing → (TupleId → Row V) → Prop} {c c' : Scene V N} {side σ : Side} {e : Event}
  {t : TupleId}

/-- After the rest of the network replaced the row of a tuple. -/
def replaced (c : Scene V N) (t : TupleId) (row : Row V) : Scene V N :=
  c.beside (c.staging.arena.put t ⟨row, .updating⟩)
    ⟨c.heard.known, fun σ x => c.heard.fresh σ x ∧ x ≠ t,
      fun σ x hx => c.heard.known_of_fresh σ x hx.1⟩

theorem Kept.replace (h : Kept outs Books c) (ht : c.heard.known σ t) (row : Row V) :
    Step r c (c.replaced t row) := by
  have hocc := h.clear.occupied t ⟨σ, ht⟩
  have hne : ∀ x, c.own x → x ≠ t := fun x hx hxt => h.foreign σ t ht (hxt ▸ hx)
  refine .elsewhere ⟨h.tended.valid.put hocc, fun σ x hx => ?_, fun x hx => ?_, fun x hx => ?_,
    fun _ _ => Iff.rfl, fun σ x hx => ⟨hx.1, ?_⟩⟩
  · exact (Arena.occupied_put x).mpr (h.clear.occupied x ⟨σ, hx⟩)
  · rw [Arena.state_put hocc.1, if_neg (hne x hx)]
  · rw [Arena.row_put hocc.1, if_neg (hne x hx)]
  · exact (Arena.row_put hocc.1 x).trans (if_neg hx.2)

/-- Tells the node of an event, if that does not stop it. -/
def tell? (r : Reader V N) (c : Scene V N) (side : Side) (e : Event) (t : TupleId) :
    Option (Scene V N) :=
  match (r.onEvent c.node side e t).run.run c.staging with
  | (.ok node, s) => some (c.told side e t node s)
  | (.error _, _) => none

theorem tell?_eq_some (h : c.tell? r side e t = some c') : ∃ node s,
    (r.onEvent c.node side e t).run.run c.staging = (.ok node, s) ∧
      c' = c.told side e t node s := by
  unfold tell? at h
  split at h
  · rename_i node s hrun
    exact ⟨node, s, hrun, (Option.some.inj h).symm⟩
  · cases h

theorem Step.of_tell? (hside : r.hears side) (ha : c.Admits side e t)
    (h : c.tell? r side e t = some c') : Step r c c' := by
  obtain ⟨node, s, hrun, rfl⟩ := tell?_eq_some h
  exact .hear hside ha hrun

theorem heard_of_tell? (h : c.tell? r side e t = some c') :
    c'.heard = c.heard.hear side e t := by
  obtain ⟨node, s, -, rfl⟩ := tell?_eq_some h
  rfl

end Scene

/-- What nodes of a kind keep up at every step they keep up for life. -/
theorem Reader.Keeps.lives {V N : Type} {r : Reader V N} {outs : N → List TupleId}
    {Books : N → Hearing → (TupleId → Row V) → Prop} {Raises : Fault → Prop} {start : N}
    {c : Scene V N} (hr : r.Keeps outs Books Raises) (houts : outs start = [])
    (hbooks : ∀ ρ, Books start .nothing ρ) (hc : r.Lives start c) : c.Kept outs Books := by
  induction hc with
  | born hv =>
      refine ⟨hbooks _, ⟨?_, fun t ⟨_, ht⟩ => ht.elim, fun t ⟨_, ht⟩ => ht.elim⟩, fun t => ?_,
        fun _ _ ht => ht.elim⟩
      · change Staging.Tended ⟨_, #[]⟩ (outs start)
        rw [houts]
        exact ⟨hv, List.nodup_nil, by simp, by simp, by simp, by simp, by simp⟩
      · simp [Scene.born, houts]
  | step _ hs ih => exact ih.step hr hs

/-- The same scene with another node in it. -/
def Scene.withNode {V N M : Type} (c : Scene V N) (m : M) : Scene V M :=
  ⟨m, c.staging, c.heard, c.own⟩

section WithNode

variable {V N M : Type} {c : Scene V N} {side : Side} {e : Event} {t : TupleId} {a : Arena V}
  {h : Hearing}

theorem Scene.Admits.withNode (ha : c.Admits side e t) (m : M) :
    (c.withNode m).Admits side e t := ⟨ha.expects, ha.occupied, ha.foreign⟩

theorem Scene.Elsewhere.withNode (he : c.Elsewhere a h) (m : M) :
    (c.withNode m).Elsewhere a h :=
  ⟨he.valid, he.occupied, he.own_state, he.own_row, he.known, he.fresh⟩

/-- Nodes that follow each other through every event follow each other for life. -/
theorem Reader.Lives.simulates {r : Reader V N} {start : N} (hc : r.Lives start c)
    (r' : Reader V M) (start' : M) (R : N → M → Prop)
    (hhears : ∀ side, r.hears side → r'.hears side) (hstart : R start start')
    (hevent : ∀ {c side e t n s m}, r.Lives start c → r.hears side → c.Admits side e t →
      R c.node m → (r.onEvent c.node side e t).run.run c.staging = (.ok n, s) →
      ∃ m', R n m' ∧ (r'.onEvent m side e t).run.run c.staging = (.ok m', s)) :
    ∃ m, R c.node m ∧ r'.Lives start' (c.withNode m) := by
  induction hc with
  | born hv => exact ⟨start', hstart, .born hv⟩
  | step hc hs ih =>
      obtain ⟨m, hm, hlives⟩ := ih
      cases hs with
      | hear hside ha hrun =>
          obtain ⟨m', hm', hrun'⟩ := hevent hc hside ha hm hrun
          exact ⟨m', hm', hlives.step (.hear (hhears _ hside) (ha.withNode m) hrun')⟩
      | elsewhere he => exact ⟨m, hm, hlives.step (.elsewhere (he.withNode m))⟩
      | handOn ht => exact ⟨m, hm, hlives.step (.handOn ht)⟩

end WithNode

section Scripts

/-- A step of a script: the node is told of an event, or the row of a tuple is replaced before the
node is told so. -/
inductive Cue (V : Type) where
  | tell (side : Side) (e : Event) (t : TupleId)
  | replace (t : TupleId) (row : Row V)

/-- What a node has heard, as lists. -/
structure Log where
  known : List (Side × TupleId)
  fresh : List (Side × TupleId)

namespace Log

def hear (log : Log) (side : Side) (e : Event) (t : TupleId) : Log :=
  match e with
  | .insert | .update => ⟨(side, t) :: log.known, (side, t) :: log.fresh⟩
  | .retract => ⟨log.known.filter (· ≠ (side, t)), log.fresh.filter (· ≠ (side, t))⟩

def replace (log : Log) (t : TupleId) : Log := ⟨log.known, log.fresh.filter (·.2 ≠ t)⟩

def Expects (log : Log) (side : Side) (e : Event) (t : TupleId) : Bool :=
  match e with
  | .insert => (side, t) ∉ log.known
  | .update | .retract => (side, t) ∈ log.known

structure Tells (log : Log) (h : Hearing) : Prop where
  known_iff : ∀ side t, h.known side t ↔ (side, t) ∈ log.known
  fresh_iff : ∀ side t, h.fresh side t ↔ (side, t) ∈ log.fresh

variable {log : Log} {h : Hearing} {side : Side} {e : Event} {t : TupleId}

theorem Tells.hear (hl : log.Tells h) : (log.hear side e t).Tells (h.hear side e t) := by
  cases e with
  | insert | update => constructor <;> simp [Log.hear, Hearing.hear, hl.known_iff, hl.fresh_iff]
  | retract =>
      constructor <;>
        simp [Log.hear, Hearing.hear, hl.known_iff, hl.fresh_iff, imp_iff_not_or]

theorem Tells.expects (hl : log.Tells h) (he : log.Expects side e t) : h.Expects side e t := by
  cases e <;> simpa [Log.Expects, Hearing.Expects, hl.known_iff] using he

end Log

variable {V N : Type}

def Cue.play? (r : Reader V N) (outs : N → List TupleId) (cue : Cue V) (p : Scene V N × Log) :
    Option (Scene V N × Log) :=
  match cue with
  | .tell side e t =>
      if p.2.Expects side e t ∧ p.1.staging.arena.Occupied t ∧ t ∉ outs p.1.node ∧
          t ∉ p.1.staging.queue.toList then
        (p.1.tell? r side e t).map (·, p.2.hear side e t)
      else none
  | .replace t row =>
      if t ∈ p.2.known.map (·.2) then some (p.1.replaced t row, p.2.replace t) else none

/-- The scene and what was heard after a script. -/
def Scene.play? (r : Reader V N) (outs : N → List TupleId) (c : Scene V N) (cues : List (Cue V)) :
    Option (Scene V N × Log) :=
  cues.foldlM (fun p cue => cue.play? r outs p) (c, ⟨[], []⟩)

/-- The node may be told so. -/
def Cue.Heard (r : Reader V N) : Cue V → Prop
  | .tell side _ _ => r.hears side
  | .replace _ _ => True

variable {r : Reader V N} {outs : N → List TupleId} {start : N} {a : Arena V}
  {Books : N → Hearing → (TupleId → Row V) → Prop} {p p' : Scene V N × Log} {cues : List (Cue V)}

theorem Cue.lives_of_play? {cue : Cue V} (hkept : ∀ {c}, r.Lives start c → c.Kept outs Books)
    (hheard : cue.Heard r) (hc : r.Lives start p.1) (hl : p.2.Tells p.1.heard)
    (h : cue.play? r outs p = some p') : r.Lives start p'.1 ∧ p'.2.Tells p'.1.heard := by
  have hk := hkept hc
  cases cue with
  | tell side e t =>
      obtain ⟨⟨he, hocc, hout, hqueue⟩, h⟩ := Option.ite_none_right_eq_some.mp h
      obtain ⟨c', hc', rfl⟩ := Option.map_eq_some_iff.mp h
      have hforeign : ¬p.1.own t := fun hown => ((hk.own_iff t).mp hown).elim hout hqueue
      refine ⟨hc.step (.of_tell? hheard ⟨hl.expects he, hocc, hforeign⟩ hc'), ?_⟩
      change (p.2.hear side e t).Tells c'.heard
      rw [Scene.heard_of_tell? hc']
      exact hl.hear
  | replace t row =>
      obtain ⟨hknown, h⟩ := Option.ite_none_right_eq_some.mp h
      obtain rfl := Option.some.inj h
      obtain ⟨⟨side, _⟩, hmem, rfl⟩ := List.mem_map.mp hknown
      refine ⟨hc.step (hk.replace ((hl.known_iff side _).mpr hmem) row), hl.known_iff,
        fun σ x => ?_⟩
      simp [Log.replace, Scene.replaced, Scene.beside, hl.fresh_iff]

theorem Cue.lives_of_foldlM (hkept : ∀ {c}, r.Lives start c → c.Kept outs Books)
    (hheard : ∀ cue ∈ cues, Cue.Heard r cue) (hc : r.Lives start p.1) (hl : p.2.Tells p.1.heard)
    (h : cues.foldlM (fun p cue => Cue.play? r outs cue p) p = some p') :
    r.Lives start p'.1 ∧ p'.2.Tells p'.1.heard := by
  induction cues generalizing p with
  | nil =>
      obtain rfl := Option.some.inj h
      exact ⟨hc, hl⟩
  | cons cue cues ih =>
      obtain ⟨p₁, h₁, h⟩ := Option.bind_eq_some_iff.mp h
      obtain ⟨hc₁, hl₁⟩ := Cue.lives_of_play? hkept (hheard cue List.mem_cons_self) hc hl h₁
      exact ih (fun cue' hcue' => hheard cue' (List.mem_cons_of_mem cue hcue')) hc₁ hl₁ h

/-- There is a scene in the life of a node of which all that a script checks holds. -/
theorem Scene.exists_of_play? {facts : Scene V N × Log → Bool}
    (hkept : ∀ {c}, r.Lives start c → c.Kept outs Books) (ha : a.Valid)
    (hheard : ∀ cue ∈ cues, Cue.Heard r cue)
    (h : ((Scene.born start a).play? r outs cues).any facts) :
    ∃ c log, r.Lives start c ∧ log.Tells c.heard ∧ facts (c, log) := by
  cases hp : (Scene.born start a).play? r outs cues with
  | none =>
      rw [hp] at h
      cases h
  | some p =>
      rw [hp] at h
      have hborn : (Log.mk [] []).Tells (Scene.born start a).heard :=
        ⟨fun _ _ => by simp [Scene.born, Hearing.nothing],
          fun _ _ => by simp [Scene.born, Hearing.nothing]⟩
      obtain ⟨hc, hl⟩ := Cue.lives_of_foldlM hkept hheard (.born ha) hborn hp
      exact ⟨p.1, p.2, hc, hl, h⟩

theorem Log.Tells.upToDate {c : Scene V N} {log : Log} (hl : log.Tells c.heard)
    (hall : ∀ x ∈ log.known, x ∈ log.fresh) : c.UpToDate := fun side t ht =>
  (hl.fresh_iff side t).mpr (hall _ ((hl.known_iff side t).mp ht))

/-- Tuples of a coin each. -/
def coinArena (coins : List Coin) : Arena Coin :=
  ⟨(coins.map fun coin => ⟨[coin], .ok⟩).toArray, [], coins.length⟩

theorem valid_coinArena (coins : List Coin) : (coinArena coins).Valid :=
  ⟨List.nodup_nil, by simp [coinArena], by simp [coinArena], by simp [coinArena]⟩

/-- A node hears of a coin on both sides. Then the coin is exchanged before the node is told so, on
one side after the other. -/
def Cue.exchange : List (Cue Coin) :=
  [.tell .left .insert 0, .tell .right .insert 0, .replace 0 [⟨7, false⟩], .tell .left .update 0,
    .tell .right .update 0]

end Scripts

end ConstraintScoring
