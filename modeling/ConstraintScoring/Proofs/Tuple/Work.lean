import ConstraintScoring.Proofs.Tuple.Ensures

/-!
# Work on the tuples of a node

`Tended s O` says that a node whose outputs are the tuples `O` has its staging `s` in order: the
outputs are active, and its queue holds the tuples with a staged change, each once. `Work` is
what a node may do to its tuples, one staged change after another, and `Kept` is what it thereby
leaves alone.
-/

namespace ConstraintScoring

variable {V : Type}

namespace Staging

structure Tended (s : Staging V) (O : List TupleId) : Prop where
  valid : s.arena.Valid
  nodup : O.Nodup
  active : ∀ t ∈ O, (s.arena.state t).isActive
  queue_nodup : s.queue.toList.Nodup
  queue_pending : ∀ t ∈ s.queue.toList, (s.arena.state t).isPending
  queued : ∀ t ∈ O, (s.arena.state t).isPending → t ∈ s.queue.toList
  backed : ∀ t ∈ s.queue.toList, (s.arena.state t).isActive → t ∈ O

/-- From outputs `O` to outputs `O'` by staging changes; every row written satisfies `W`. -/
inductive Work (W : Row V → Prop) (s : Staging V) (O : List TupleId) :
    Staging V → List TupleId → Prop where
  | refl : Work W s O s O
  | insert {s' O' row} : Work W s O s' O' → W row →
      Work W s O (s'.inserted row) (s'.arena.next :: O')
  | update {s' O' t row} : Work W s O s' O' → t ∈ O' → W row → Work W s O (s'.updated t row) O'
  | retract {s' O' t} : Work W s O s' O' → t ∈ O' → Work W s O (s'.retracted t) (O'.erase t)
  | perm {s' O' O''} : Work W s O s' O' → O'.Perm O'' → Work W s O s' O''

section Operations

variable {s : Staging V} {t : TupleId} {r : Row V}

theorem queue_inserted : (s.inserted r).queue.toList = s.queue.toList ++ [s.arena.next] := by
  simp [inserted]

theorem updated_eq (ht : (s.arena.state t).isActive) :
    (s.updated t r).arena = s.arena.put t
        ⟨r, if s.arena.state t = .ok then .updating else s.arena.state t⟩ ∧
      (s.updated t r).queue.toList =
        if s.arena.state t = .ok then s.queue.toList ++ [t] else s.queue.toList := by
  unfold updated
  cases hs : s.arena.state t <;> simp_all [TupleState.isActive]

/-- The state of an active tuple once it is taken back. -/
def afterRetract : TupleState → TupleState
  | .ok | .updating => .dying
  | _ => .aborting

theorem retracted_eq (ht : (s.arena.state t).isActive) :
    (s.retracted t).arena = s.arena.setState t (afterRetract (s.arena.state t)) ∧
      (s.retracted t).queue.toList =
        if s.arena.state t = .ok then s.queue.toList ++ [t] else s.queue.toList := by
  unfold retracted
  cases hs : s.arena.state t <;> simp_all [TupleState.isActive, afterRetract]

theorem row_inserted (h : s.arena.Valid) (x : TupleId) :
    (s.inserted r).arena.row x = if x = s.arena.next then r else s.arena.row x :=
  h.row_create x

theorem row_updated (ht : (s.arena.state t).isActive) (hocc : s.arena.Occupied t) (x : TupleId) :
    (s.updated t r).arena.row x = if x = t then r else s.arena.row x := by
  rw [(updated_eq ht).1, Arena.row_put hocc.1]

theorem row_retracted (ht : (s.arena.state t).isActive) (x : TupleId) :
    (s.retracted t).arena.row x = s.arena.row x := by
  rw [(retracted_eq ht).1, Arena.row_setState]

end Operations

namespace Tended

variable {s : Staging V} {O : List TupleId} {t : TupleId} {r : Row V}

theorem occupied (h : Tended s O) (ht : t ∈ O) : s.arena.Occupied t :=
  h.valid.occupied_of_active (h.active t ht)

theorem occupied_of_queued (h : Tended s O) (ht : t ∈ s.queue.toList) : s.arena.Occupied t :=
  h.valid.occupied_of_state fun hd => by
    have hp := h.queue_pending t ht
    simp [hd, TupleState.isPending] at hp

theorem perm {O' : List TupleId} (h : Tended s O) (hp : O.Perm O') : Tended s O' where
  valid := h.valid
  nodup := hp.nodup_iff.mp h.nodup
  active x hx := h.active x (hp.mem_iff.mpr hx)
  queue_nodup := h.queue_nodup
  queue_pending := h.queue_pending
  queued x hx := h.queued x (hp.mem_iff.mpr hx)
  backed x hx ha := hp.mem_iff.mp (h.backed x hx ha)

theorem congr {a a' : Arena V} {q : Array TupleId} (h : Tended ⟨a, q⟩ O) (hv : a'.Valid)
    (hO : ∀ t ∈ O, a'.state t = a.state t) (hq : ∀ t ∈ q.toList, a'.state t = a.state t) :
    Tended ⟨a', q⟩ O where
  valid := hv
  nodup := h.nodup
  active t ht := (hO t ht).symm ▸ h.active t ht
  queue_nodup := h.queue_nodup
  queue_pending t ht := (hq t ht).symm ▸ h.queue_pending t ht
  queued t ht hp := h.queued t ht ((hO t ht) ▸ hp)
  backed t ht hp := h.backed t ht ((hq t ht) ▸ hp)

/-- One tuple is taken from the queue, and what it becomes does not have to wait any more. -/
theorem take {a : Arena V} {q : Array TupleId} (h : Tended s O) (hv : a.Valid)
    (hother : ∀ x, x ≠ t → a.state x = s.arena.state x)
    (hself : t ∈ O → (a.state t).isActive ∧ (a.state t).isPending = false)
    (hnodup : q.toList.Nodup) (hq : ∀ x, x ∈ q.toList ↔ x ≠ t ∧ x ∈ s.queue.toList) :
    Tended ⟨a, q⟩ O := by
  refine ⟨hv, h.nodup, fun x hx => ?_, hnodup, fun x hx => ?_, fun x hx hp => ?_, fun x hx ha => ?_⟩
  · by_cases hxt : x = t
    · subst hxt
      exact (hself hx).1
    · exact (hother x hxt).symm ▸ h.active x hx
  · obtain ⟨hxt, hx⟩ := (hq x).mp hx
    exact (hother x hxt).symm ▸ h.queue_pending x hx
  · have hxt : x ≠ t := by
      rintro rfl
      rw [(hself hx).2] at hp
      cases hp
    exact (hq x).mpr ⟨hxt, h.queued x hx ((hother x hxt) ▸ hp)⟩
  · obtain ⟨hxt, hx⟩ := (hq x).mp hx
    exact h.backed x hx ((hother x hxt) ▸ ha)

theorem insert (h : Tended s O) : Tended (s.inserted r) (s.arena.next :: O) := by
  have hfresh : ∀ x, s.arena.Occupied x → x ≠ s.arena.next := fun x hx hxt =>
    s.arena.not_occupied_next (hxt ▸ hx)
  have hstate := h.valid.state_create (r := r)
  constructor
  · exact h.valid.create
  · exact List.nodup_cons.mpr ⟨fun hm => hfresh _ (h.occupied hm) rfl, h.nodup⟩
  · intro x hx
    simp only [inserted, hstate]
    split
    · rfl
    · rename_i hxt
      exact h.active x (List.mem_of_ne_of_mem hxt hx)
  · rw [queue_inserted]
    refine List.nodup_append.mpr ⟨h.queue_nodup, by simp, fun x hx y hy => ?_⟩
    rw [List.mem_singleton.mp hy]
    exact hfresh x (h.occupied_of_queued hx)
  · intro x hx
    rw [queue_inserted, List.mem_append, List.mem_singleton] at hx
    simp only [inserted, hstate]
    split
    · rfl
    · rename_i hxt
      exact h.queue_pending x (hx.resolve_right hxt)
  · intro x hx hp
    rw [queue_inserted, List.mem_append, List.mem_singleton]
    simp only [inserted, hstate] at hp
    split at hp
    · rename_i hxt
      exact Or.inr hxt
    · rename_i hxt
      exact Or.inl (h.queued x (List.mem_of_ne_of_mem hxt hx) hp)
  · intro x hx ha
    rw [queue_inserted, List.mem_append, List.mem_singleton] at hx
    simp only [inserted, hstate] at ha
    split at ha
    · rename_i hxt
      simp [hxt]
    · rename_i hxt
      exact List.mem_cons_of_mem _ (h.backed x (hx.resolve_right hxt) ha)

theorem not_queued_of_ok (h : Tended s O) (ht : s.arena.state t = .ok) : t ∉ s.queue.toList := by
  intro hq
  have hp := h.queue_pending t hq
  simp [ht, TupleState.isPending] at hp

/-- What replacing a row and taking a tuple back have in common: the tuple gets a state in which
its change is staged, and it is in the queue from then on. -/
theorem stage {s' : Staging V} {state : TupleState} (h : Tended s O) (ht : t ∈ O)
    (hstate : ∀ x, s'.arena.state x = if x = t then state else s.arena.state x)
    (hpending : state.isPending)
    (hqueue : s'.queue.toList =
      if s.arena.state t = .ok then s.queue.toList ++ [t] else s.queue.toList) :
    s'.queue.toList.Nodup ∧ (∀ x, x ∈ s'.queue.toList ↔ x ∈ s.queue.toList ∨ x = t) ∧
      ∀ x ∈ s'.queue.toList, (s'.arena.state x).isPending := by
  have hmem : ∀ x, x ∈ s'.queue.toList ↔ x ∈ s.queue.toList ∨ x = t := by
    intro x
    rw [hqueue]
    split
    · simp
    · rename_i hok
      have hq : t ∈ s.queue.toList := by
        refine h.queued t ht ?_
        have ha := h.active t ht
        cases hs : s.arena.state t <;> simp_all [TupleState.isActive, TupleState.isPending]
      exact ⟨Or.inl, fun hx => hx.elim id fun hxt => hxt ▸ hq⟩
  refine ⟨?_, hmem, ?_⟩
  · rw [hqueue]
    split
    · rename_i hok
      refine List.nodup_append.mpr ⟨h.queue_nodup, by simp, fun x hx y hy hxy => ?_⟩
      rw [hxy, List.mem_singleton.mp hy] at hx
      exact h.not_queued_of_ok hok hx
    · exact h.queue_nodup
  · intro x hx
    rw [hstate]
    split
    · exact hpending
    · rename_i hxt
      exact h.queue_pending x (((hmem x).mp hx).resolve_right hxt)

theorem update (h : Tended s O) (ht : t ∈ O) : Tended (s.updated t r) O := by
  have ha := h.active t ht
  have hocc := h.occupied ht
  obtain ⟨harena, hqueue⟩ := updated_eq (r := r) ha
  have hstate : ∀ x, (s.updated t r).arena.state x = if x = t then
      (if s.arena.state t = .ok then .updating else s.arena.state t) else s.arena.state x := by
    intro x
    rw [harena, Arena.state_put hocc.1]
  have hkind : (if s.arena.state t = .ok then TupleState.updating
      else s.arena.state t).isPending ∧ (if s.arena.state t = .ok then TupleState.updating
      else s.arena.state t).isActive := by
    cases hs : s.arena.state t <;> simp_all [TupleState.isActive, TupleState.isPending]
  have hvalid : (s.updated t r).arena.Valid := harena ▸ h.valid.put hocc
  obtain ⟨hnodup, hmem, hpending⟩ := h.stage ht hstate hkind.1 hqueue
  refine ⟨hvalid, h.nodup, fun x hx => ?_, hnodup, hpending, fun x hx hp => ?_, fun x hx hx' => ?_⟩
  · rw [hstate]
    split
    · exact hkind.2
    · exact h.active x hx
  · rw [hmem]
    rw [hstate] at hp
    split at hp
    · rename_i hxt
      exact Or.inr hxt
    · exact Or.inl (h.queued x hx hp)
  · rw [hstate] at hx'
    split at hx'
    · rename_i hxt
      exact hxt ▸ ht
    · rename_i hxt
      exact h.backed x (((hmem x).mp hx).resolve_right hxt) hx'

theorem retract (h : Tended s O) (ht : t ∈ O) : Tended (s.retracted t) (O.erase t) := by
  have ha := h.active t ht
  have hocc := h.occupied ht
  obtain ⟨harena, hqueue⟩ := retracted_eq ha
  have hstate : ∀ x, (s.retracted t).arena.state x =
      if x = t then afterRetract (s.arena.state t) else s.arena.state x := by
    intro x
    rw [harena, Arena.state_setState hocc.1]
  have hkind : (afterRetract (s.arena.state t)).isPending ∧
      (afterRetract (s.arena.state t)).isActive = false := by
    cases hs : s.arena.state t <;>
      simp_all [TupleState.isActive, TupleState.isPending, afterRetract]
  have hvalid : (s.retracted t).arena.Valid := harena ▸ h.valid.setState hocc
  obtain ⟨hnodup, hmem, hpending⟩ := h.stage ht hstate hkind.1 hqueue
  refine ⟨hvalid, h.nodup.erase t, fun x hx => ?_, hnodup, hpending, fun x hx hp => ?_,
    fun x hx hx' => ?_⟩
  · obtain ⟨hxt, hx⟩ := (h.nodup.mem_erase_iff).mp hx
    rw [hstate, if_neg hxt]
    exact h.active x hx
  · obtain ⟨hxt, hx⟩ := (h.nodup.mem_erase_iff).mp hx
    rw [hstate, if_neg hxt] at hp
    exact (hmem x).mpr (Or.inl (h.queued x hx hp))
  · rw [hstate] at hx'
    split at hx'
    · rw [hkind.2] at hx'
      cases hx'
    · rename_i hxt
      have hO := h.backed x (((hmem x).mp hx).resolve_right hxt) hx'
      exact h.nodup.mem_erase_iff.mpr ⟨hxt, hO⟩

end Tended

/-- What work that leads from `s` and `O` to `s'` and `O'` leaves alone. -/
structure Kept (W : Row V → Prop) (s : Staging V) (O : List TupleId) (s' : Staging V)
    (O' : List TupleId) : Prop where
  tended : Tended s' O'
  occupied : ∀ t, s.arena.Occupied t → s'.arena.Occupied t
  row_other : ∀ t, s.arena.Occupied t → t ∉ O → s'.arena.row t = s.arena.row t
  state_other : ∀ t, s.arena.Occupied t → t ∉ O → s'.arena.state t = s.arena.state t
  outputs : ∀ t ∈ O', t ∈ O ∨ ¬s.arena.Occupied t
  made : ∀ t, s'.arena.Occupied t → ¬s.arena.Occupied t →
    (s'.arena.state t).isPending ∧ (s'.arena.state t).isSeen = false ∧ t ∈ s'.queue.toList
  dropped : ∀ t ∈ O, t ∉ O' → t ∈ s'.queue.toList
  queue : ∀ t ∈ s.queue.toList, t ∈ s'.queue.toList
  queue_origin : ∀ t ∈ s'.queue.toList, t ∈ s.queue.toList ∨ t ∈ O ∨ ¬s.arena.Occupied t
  seen : ∀ t, s.arena.Occupied t → (s'.arena.state t).isSeen = (s.arena.state t).isSeen
  ok : ∀ t, s.arena.Occupied t → s'.arena.state t = .ok →
    s.arena.state t = .ok ∧ s'.arena.row t = s.arena.row t
  rows : ∀ t, s'.arena.Occupied t →
    s.arena.Occupied t ∧ s'.arena.row t = s.arena.row t ∨ W (s'.arena.row t)

namespace Kept

variable {W : Row V → Prop} {s s' : Staging V} {O O' : List TupleId} {t : TupleId} {r : Row V}

theorem refl (h : Tended s O) : Kept W s O s O where
  tended := h
  occupied _ ht := ht
  row_other _ _ _ := rfl
  state_other _ _ _ := rfl
  outputs _ ht := Or.inl ht
  made _ ht hn := absurd ht hn
  dropped _ ht hn := absurd ht hn
  queue _ ht := ht
  queue_origin _ ht := Or.inl ht
  seen _ _ := rfl
  ok _ _ h := ⟨h, rfl⟩
  rows _ ht := Or.inl ⟨ht, rfl⟩

theorem insert (h : Kept W s O s' O') (hW : W r) :
    Kept W s O (s'.inserted r) (s'.arena.next :: O') := by
  have hvalid := h.tended.valid
  have hocc := hvalid.occupied_create (r := r)
  have hstate := hvalid.state_create (r := r)
  have hrow := hvalid.row_create (r := r)
  have hnext : ∀ x, s.arena.Occupied x → x ≠ s'.arena.next := fun x hx hxt =>
    s'.arena.not_occupied_next (hxt ▸ h.occupied x hx)
  constructor
  · exact h.tended.insert
  · exact fun x hx => (hocc x).mpr (Or.inr (h.occupied x hx))
  · intro x hx hxO
    simp only [inserted, hrow, if_neg (hnext x hx), h.row_other x hx hxO]
  · intro x hx hxO
    simp only [inserted, hstate, if_neg (hnext x hx), h.state_other x hx hxO]
  · intro x hx
    rcases List.mem_cons.mp hx with rfl | hx
    · exact Or.inr fun ho => hnext _ ho rfl
    · exact h.outputs x hx
  · intro x hx hn
    rw [queue_inserted, List.mem_append, List.mem_singleton]
    simp only [inserted, hstate]
    rcases (hocc x).mp hx with hxt | hx
    · simp [hxt, TupleState.isPending, TupleState.isSeen]
    · have hxt : x ≠ s'.arena.next := fun hxt => s'.arena.not_occupied_next (hxt ▸ hx)
      obtain ⟨hp, hs, hq⟩ := h.made x hx hn
      simp only [if_neg hxt]
      exact ⟨hp, hs, Or.inl hq⟩
  · intro x hx hn
    rw [queue_inserted, List.mem_append]
    exact Or.inl (h.dropped x hx fun hm => hn (List.mem_cons_of_mem _ hm))
  · intro x hx
    rw [queue_inserted, List.mem_append]
    exact Or.inl (h.queue x hx)
  · intro x hx
    rw [queue_inserted, List.mem_append, List.mem_singleton] at hx
    rcases hx with hx | rfl
    · exact h.queue_origin x hx
    · exact Or.inr (Or.inr fun ho => hnext _ ho rfl)
  · intro x hx
    simp only [inserted, hstate, if_neg (hnext x hx), h.seen x hx]
  · intro x hx hok
    simp only [inserted, hstate, hrow, if_neg (hnext x hx)] at hok ⊢
    exact h.ok x hx hok
  · intro x hx
    simp only [inserted, hrow]
    rcases (hocc x).mp hx with hxt | hx
    · simp [hxt, hW]
    · have hxt : x ≠ s'.arena.next := fun hxt => s'.arena.not_occupied_next (hxt ▸ hx)
      simp only [if_neg hxt]
      exact h.rows x hx

/-- Changing one output in place: its row and state change, and it is queued from then on. -/
theorem change {s'' : Staging V} {O'' : List TupleId} {state : TupleState}
    (h : Kept W s O s' O') (ht : t ∈ O') (htended : Tended s'' O'')
    (hocc : ∀ x, s''.arena.Occupied x ↔ s'.arena.Occupied x)
    (hstate : ∀ x, s''.arena.state x = if x = t then state else s'.arena.state x)
    (hrow : ∀ x, x ≠ t → s''.arena.row x = s'.arena.row x)
    (hrowt : s''.arena.row t = s'.arena.row t ∨ W (s''.arena.row t))
    (hpending : state.isPending) (hseen : state.isSeen = (s'.arena.state t).isSeen)
    (hqueue : ∀ x, x ∈ s''.queue.toList ↔ x ∈ s'.queue.toList ∨ x = t)
    (hsub : ∀ x ∈ O'', x ∈ O') (hkeep : ∀ x ∈ O', x ≠ t → x ∈ O'') :
    Kept W s O s'' O'' := by
  have hother : ∀ x, s.arena.Occupied x → x ∉ O → x ≠ t := by
    intro x hx hxO hxt
    exact (h.outputs t ht).elim (fun hO => hxO (hxt ▸ hO)) fun hn => hn (hxt ▸ hx)
  constructor
  · exact htended
  · exact fun x hx => (hocc x).mpr (h.occupied x hx)
  · intro x hx hxO
    rw [hrow x (hother x hx hxO), h.row_other x hx hxO]
  · intro x hx hxO
    rw [hstate, if_neg (hother x hx hxO), h.state_other x hx hxO]
  · exact fun x hx => h.outputs x (hsub x hx)
  · intro x hx hn
    obtain ⟨hp, hs, hq⟩ := h.made x ((hocc x).mp hx) hn
    rw [hstate, hqueue]
    split
    · rename_i hxt
      exact ⟨hpending, by rw [hseen, ← hxt, hs], Or.inr hxt⟩
    · exact ⟨hp, hs, Or.inl hq⟩
  · intro x hx hn
    rw [hqueue]
    by_cases hxt : x = t
    · exact Or.inr hxt
    · by_cases hxO : x ∈ O'
      · exact absurd (hkeep x hxO hxt) hn
      · exact Or.inl (h.dropped x hx hxO)
  · exact fun x hx => (hqueue x).mpr (Or.inl (h.queue x hx))
  · intro x hx
    rcases (hqueue x).mp hx with hx | rfl
    · exact h.queue_origin x hx
    · exact Or.inr (h.outputs x ht)
  · intro x hx
    rw [hstate]
    split
    · rename_i hxt
      rw [hseen, ← hxt, h.seen x hx]
    · exact h.seen x hx
  · intro x hx hok
    rw [hstate] at hok
    split at hok
    · simp [hok, TupleState.isPending] at hpending
    · rename_i hxt
      rw [hrow x hxt]
      exact h.ok x hx hok
  · intro x hx
    have hx' := (hocc x).mp hx
    by_cases hxt : x = t
    · subst hxt
      rcases hrowt with hrowt | hW
      · rw [hrowt]
        exact h.rows x hx'
      · exact Or.inr hW
    · rw [hrow x hxt]
      exact h.rows x hx'

theorem update (h : Kept W s O s' O') (ht : t ∈ O') (hW : W r) :
    Kept W s O (s'.updated t r) O' := by
  have ha := h.tended.active t ht
  have hocc := h.tended.occupied ht
  obtain ⟨harena, hqueue⟩ := updated_eq (r := r) ha
  have hstate : ∀ x, (s'.updated t r).arena.state x = if x = t then
      (if s'.arena.state t = .ok then .updating else s'.arena.state t) else s'.arena.state x := by
    intro x
    rw [harena, Arena.state_put hocc.1]
  have hkind : (if s'.arena.state t = .ok then TupleState.updating
      else s'.arena.state t).isPending ∧ (if s'.arena.state t = .ok then TupleState.updating
      else s'.arena.state t).isSeen = (s'.arena.state t).isSeen := by
    cases hs : s'.arena.state t <;>
      simp_all [TupleState.isActive, TupleState.isPending, TupleState.isSeen]
  have htended := h.tended.update (r := r) ht
  refine h.change ht htended (by simp [harena]) hstate ?_ ?_ hkind.1 hkind.2
    (h.tended.stage ht hstate hkind.1 hqueue).2.1 (fun _ hx => hx) fun _ hx _ => hx
  · intro x hxt
    rw [harena, Arena.row_put hocc.1, if_neg hxt]
  · right
    rw [harena, Arena.row_put hocc.1, if_pos rfl]
    exact hW

theorem retract (h : Kept W s O s' O') (ht : t ∈ O') :
    Kept W s O (s'.retracted t) (O'.erase t) := by
  have ha := h.tended.active t ht
  have hocc := h.tended.occupied ht
  obtain ⟨harena, hqueue⟩ := retracted_eq ha
  have hstate : ∀ x, (s'.retracted t).arena.state x =
      if x = t then afterRetract (s'.arena.state t) else s'.arena.state x := by
    intro x
    rw [harena, Arena.state_setState hocc.1]
  have hkind : (afterRetract (s'.arena.state t)).isPending ∧
      (afterRetract (s'.arena.state t)).isSeen = (s'.arena.state t).isSeen := by
    cases hs : s'.arena.state t <;>
      simp_all [TupleState.isActive, TupleState.isPending, TupleState.isSeen, afterRetract]
  have htended := h.tended.retract ht
  refine h.change ht htended (by simp [harena]) hstate (fun x _ => by simp [harena])
    (Or.inl (by simp [harena])) hkind.1 hkind.2
    (h.tended.stage ht hstate hkind.1 hqueue).2.1
    (fun _ hx => List.mem_of_mem_erase hx) fun x hx hxt => ?_
  exact (List.mem_erase_of_ne hxt).mpr hx

theorem perm {O'' : List TupleId} (h : Kept W s O s' O') (hp : O'.Perm O'') :
    Kept W s O s' O'' where
  tended := h.tended.perm hp
  occupied := h.occupied
  row_other := h.row_other
  state_other := h.state_other
  outputs t ht := h.outputs t (hp.mem_iff.mpr ht)
  made := h.made
  dropped t ht hn := h.dropped t ht fun hm => hn (hp.mem_iff.mp hm)
  queue := h.queue
  queue_origin := h.queue_origin
  seen := h.seen
  ok := h.ok
  rows := h.rows

end Kept

namespace Work

variable {W : Row V → Prop} {s s' s'' : Staging V} {O O' O'' : List TupleId}

/-- Work on tended outputs leaves them tended and the tuples of other nodes alone. -/
theorem kept (w : Work W s O s' O') (h : Tended s O) : Kept W s O s' O' := by
  induction w with
  | refl => exact .refl h
  | insert _ hW ih => exact ih.insert hW
  | update _ ht hW ih => exact ih.update ht hW
  | retract _ ht ih => exact ih.retract ht
  | perm _ hp ih => exact ih.perm hp

theorem trans (w : Work W s O s' O') (w' : Work W s' O' s'' O'') : Work W s O s'' O'' := by
  induction w' with
  | refl => exact w
  | insert _ hW ih => exact ih.insert hW
  | update _ ht hW ih => exact ih.update ht hW
  | retract _ ht ih => exact ih.retract ht
  | perm _ hp ih => exact ih.perm hp

end Work

end Staging

/-- Valid slots stay valid, and what is occupied stays occupied. -/
def Arena.Grows (a a' : Arena V) : Prop :=
  a.Valid → a'.Valid ∧ ∀ x, a.Occupied x → a'.Occupied x

namespace Stage

variable {s : Staging V} {row : Row V} {out : TupleId}

theorem insert_grows : (insert row).Ensures s
    (fun out s' => out = s.arena.next ∧ s.arena.Grows s'.arena) fun _ => True := by
  refine .of_insert ⟨rfl, fun hv => ⟨hv.create, fun x hx => ?_⟩⟩
  exact (hv.occupied_create x).mpr (Or.inr hx)

theorem update_grows : (update out row).Ensures s
    (fun _ s' => s.arena.Grows s'.arena) fun _ => True := by
  cases hs : (s.arena.state out).isActive with
  | true =>
      refine .of_update hs fun hv => ?_
      rw [(Staging.updated_eq hs).1]
      exact ⟨hv.put (hv.occupied_of_active hs), fun x => (Arena.occupied_put x).mpr⟩
  | false =>
      unfold update Ensures
      rw [Outcome.run_get_bind]
      cases hstate : s.arena.state out <;> simp_all [TupleState.isActive] <;> trivial

theorem retract_grows : (retract out : Stage V Unit).Ensures s
    (fun _ s' => s.arena.Grows s'.arena) fun _ => True := by
  cases hs : (s.arena.state out).isActive with
  | true =>
      refine .of_retract hs fun hv => ?_
      rw [(Staging.retracted_eq hs).1]
      exact ⟨hv.setState (hv.occupied_of_active hs), fun x => (Arena.occupied_setState x).mpr⟩
  | false =>
      unfold retract Ensures
      rw [Outcome.run_get_bind]
      cases hstate : s.arena.state out <;> simp_all [TupleState.isActive] <;> trivial

end Stage

end ConstraintScoring
