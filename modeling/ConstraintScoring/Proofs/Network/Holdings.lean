import ConstraintScoring.Network.Basic
import ConstraintScoring.Proofs.Tuple.Work
import Mathlib.Logic.Function.Basic

/-!
# Who holds which tuple

Every occupied slot belongs to the node that staged the insertion of its tuple. The node has the
tuple among its outputs or in its queue, unless its readers are just being told of it.
-/

namespace ConstraintScoring

variable {V : Type}

/-- The owners of the tuples once a node has made new ones. -/
def adopt (before after : Arena V) (id : NodeId) (owner : TupleId → NodeId) : TupleId → NodeId :=
  fun t => if after.Occupied t ∧ ¬before.Occupied t then id else owner t

/-- `told` is the tuple the readers of a node are just being told of. -/
structure Holdings (a : Arena V) (outs : NodeId → List TupleId) (waiting : NodeId → Array TupleId)
    (owner : TupleId → NodeId) (told : Option TupleId) : Prop where
  valid : a.Valid
  tended : ∀ id, Staging.Tended ⟨a, waiting id⟩ (outs id)
  owner_out : ∀ id, ∀ t ∈ outs id, owner t = id
  owner_waiting : ∀ id, ∀ t ∈ (waiting id).toList, owner t = id
  covered : ∀ t, a.Occupied t → t ∈ outs (owner t) ∨ t ∈ (waiting (owner t)).toList ∨ told = some t

namespace Holdings

variable {a : Arena V} {outs : NodeId → List TupleId} {waiting : NodeId → Array TupleId}
  {owner : TupleId → NodeId} {told : Option TupleId} {id : NodeId} {t : TupleId}

theorem occupied_out (h : Holdings a outs waiting owner told) (ht : t ∈ outs id) : a.Occupied t :=
  (h.tended id).occupied ht

theorem occupied_waiting (h : Holdings a outs waiting owner told)
    (ht : t ∈ (waiting id).toList) : a.Occupied t :=
  (h.tended id).occupied_of_queued ht

theorem empty : Holdings (.empty : Arena V) (fun _ => []) (fun _ => #[]) owner none where
  valid := Arena.valid_empty
  tended id := ⟨Arena.valid_empty, List.nodup_nil, by simp, by simp, by simp, by simp, by simp⟩
  owner_out id t ht := by simp at ht
  owner_waiting id t ht := by simp at ht
  covered t ht := by simp [Arena.Occupied, Arena.empty] at ht

theorem adopt_of_occupied {a' : Arena V} (ht : a.Occupied t) : adopt a a' id owner t = owner t :=
  if_neg fun h => h.2 ht

theorem adopt_of_new {a' : Arena V} (ht : a'.Occupied t) (hn : ¬a.Occupied t) :
    adopt a a' id owner t = id := if_pos ⟨ht, hn⟩

/-- The work of one node leaves the holdings of all others as they are. -/
theorem work {W : Row V → Prop} {s' : Staging V} {O' : List TupleId}
    (h : Holdings a outs waiting owner told)
    (w : Staging.Work W ⟨a, waiting id⟩ (outs id) s' O') :
    Holdings s'.arena (Function.update outs id O') (Function.update waiting id s'.queue)
      (adopt a s'.arena id owner) told := by
  have hk := w.kept (h.tended id)
  -- Only outputs of the node itself change, and those of others are none of them.
  have hother : ∀ j ≠ id, ∀ t, owner t = j → t ∉ outs id := fun j hj t ht hO =>
    hj (ht.symm.trans (h.owner_out id t hO))
  refine ⟨hk.tended.valid, fun j => ?_, fun j t ht => ?_, fun j t ht => ?_, fun t ht => ?_⟩
  · by_cases hj : j = id
    · subst hj
      rw [Function.update_self, Function.update_self]
      exact hk.tended
    · rw [Function.update_of_ne hj, Function.update_of_ne hj]
      refine (h.tended j).congr hk.tended.valid (fun t ht => ?_) fun t ht => ?_
      · exact hk.state_other t (h.occupied_out ht) (hother j hj t (h.owner_out j t ht))
      · exact hk.state_other t (h.occupied_waiting ht) (hother j hj t (h.owner_waiting j t ht))
  · by_cases hj : j = id
    · subst hj
      rw [Function.update_self] at ht
      by_cases hocc : a.Occupied t
      · rw [adopt_of_occupied hocc]
        exact h.owner_out j t ((hk.outputs t ht).resolve_right fun hn => hn hocc)
      · exact adopt_of_new (hk.tended.occupied ht) hocc
    · rw [Function.update_of_ne hj] at ht
      rw [adopt_of_occupied (h.occupied_out ht), h.owner_out j t ht]
  · by_cases hj : j = id
    · subst hj
      rw [Function.update_self] at ht
      by_cases hocc : a.Occupied t
      · rw [adopt_of_occupied hocc]
        rcases hk.queue_origin t ht with hq | hO | hn
        · exact h.owner_waiting j t hq
        · exact h.owner_out j t hO
        · exact absurd hocc hn
      · exact adopt_of_new (hk.tended.occupied_of_queued ht) hocc
    · rw [Function.update_of_ne hj] at ht
      rw [adopt_of_occupied (h.occupied_waiting ht), h.owner_waiting j t ht]
  · by_cases hocc : a.Occupied t
    · rw [adopt_of_occupied hocc]
      by_cases hid : owner t = id
      · rw [hid, Function.update_self, Function.update_self]
        by_cases hO' : t ∈ O'
        · exact Or.inl hO'
        · rcases h.covered t hocc with hO | hq | htold
          · exact Or.inr (Or.inl (hk.dropped t (hid ▸ hO) hO'))
          · exact Or.inr (Or.inl (hk.queue t (hid ▸ hq)))
          · exact Or.inr (Or.inr htold)
      · rw [Function.update_of_ne hid, Function.update_of_ne hid]
        exact h.covered t hocc
    · rw [adopt_of_new ht hocc, Function.update_self, Function.update_self]
      exact Or.inr (Or.inl (hk.made t ht hocc).2.2)

/-- A tuple at the head of a queue that is being emptied. -/
structure Next (a : Arena V) (outs : NodeId → List TupleId) (waiting : NodeId → Array TupleId)
    (owner : TupleId → NodeId) (id : NodeId) (t : TupleId) (ts : List TupleId) : Prop where
  holdings : Holdings a outs waiting owner none
  waiting : (waiting id).toList = t :: ts

namespace Next

variable {ts : List TupleId}

theorem head (h : Next a outs waiting owner id t ts) : a.Occupied t ∧ (a.state t).isPending ∧
    t ∉ ts ∧ owner t = id := by
  have hmem : t ∈ (waiting id).toList := h.waiting ▸ List.mem_cons_self
  have hnodup : (t :: ts).Nodup := h.waiting ▸ (h.holdings.tended id).queue_nodup
  exact ⟨h.holdings.occupied_waiting hmem, (h.holdings.tended id).queue_pending t hmem,
    (List.nodup_cons.mp hnodup).1, h.holdings.owner_waiting id t hmem⟩

theorem out_iff (h : Next a outs waiting owner id t ts) : t ∈ outs id ↔ (a.state t).isActive := by
  have hmem : t ∈ (waiting id).toList := h.waiting ▸ List.mem_cons_self
  exact ⟨(h.holdings.tended id).active t, (h.holdings.tended id).backed t hmem⟩

theorem not_waiting (h : Next a outs waiting owner id t ts) (j : NodeId) :
    t ∉ (Function.update waiting id ts.toArray j).toList := by
  by_cases hj : j = id
  · subst hj
    simpa using h.head.2.2.1
  · rw [Function.update_of_ne hj]
    exact fun ht => hj ((h.holdings.owner_waiting j t ht).symm.trans h.head.2.2.2)

/-- What still waits once the tuple is taken from the queue waited before, and is another one. -/
theorem mem_rest (h : Next a outs waiting owner id t ts) {j : NodeId} {x : TupleId} :
    x ∈ (Function.update waiting id ts.toArray j).toList ↔ x ≠ t ∧ x ∈ (waiting j).toList := by
  constructor
  · refine fun hx => ⟨fun hxt => h.not_waiting j (hxt ▸ hx), ?_⟩
    by_cases hj : j = id
    · subst hj
      rw [Function.update_self] at hx
      rw [h.waiting]
      exact List.mem_cons_of_mem t (by simpa using hx)
    · rwa [Function.update_of_ne hj] at hx
  · rintro ⟨hxt, hx⟩
    by_cases hj : j = id
    · subst hj
      rw [Function.update_self]
      exact List.mem_of_ne_of_mem hxt (h.waiting ▸ hx)
    · rwa [Function.update_of_ne hj]

theorem nodup_rest (h : Next a outs waiting owner id t ts) (j : NodeId) :
    (Function.update waiting id ts.toArray j).toList.Nodup := by
  have hnodup := (h.holdings.tended j).queue_nodup
  by_cases hj : j = id
  · subst hj
    rw [Function.update_self]
    exact (List.nodup_cons.mp (h.waiting ▸ hnodup)).2
  · rwa [Function.update_of_ne hj]

/-- A change of the slot of the tuple taken from the queue. -/
theorem change {a' : Arena V} (h : Next a outs waiting owner id t ts) (hv : a'.Valid)
    (hother : ∀ x, x ≠ t → a'.state x = a.state x)
    (hocc : ∀ x, x ≠ t → (a'.Occupied x ↔ a.Occupied x))
    (hactive : t ∈ outs id → (a'.state t).isActive ∧ (a'.state t).isPending = false)
    (htold : a'.Occupied t → told = some t) :
    Holdings a' outs (Function.update waiting id ts.toArray) owner told := by
  refine ⟨hv, fun j => ?_, h.holdings.owner_out, fun j x hx => ?_, fun x hx => ?_⟩
  · refine (h.holdings.tended j).take hv hother (fun ht => hactive ?_) (h.nodup_rest j) fun x =>
      h.mem_rest
    exact (h.holdings.owner_out j t ht).symm.trans h.head.2.2.2 ▸ ht
  · exact h.holdings.owner_waiting j x (h.mem_rest.mp hx).2
  · by_cases hxt : x = t
    · subst hxt
      exact Or.inr (Or.inr (htold hx))
    · rcases h.holdings.covered x ((hocc x hxt).mp hx) with hO | hq | hn
      · exact Or.inl hO
      · exact Or.inr (Or.inl (h.mem_rest.mpr ⟨hxt, hq⟩))
      · cases hn

end Next

section Told

variable {ts : List TupleId} {e : Event} {a' : Arena V}

/-- Beginning to tell of a tuple leaves it with its owner. -/
theorem Next.begin_some (h : Next a outs waiting owner id t ts) (hb : a.begin t = (some e, a')) :
    Holdings a' outs (Function.update waiting id ts.toArray) owner (some t) := by
  have hocc := h.head.1
  obtain ⟨hs, rfl⟩ := Arena.begin_eq_some.mp hb
  refine h.change (h.holdings.valid.setState hocc) (fun x hx => ?_) (fun x _ => by simp)
    (fun ht => ?_) fun _ => rfl
  · rw [Arena.state_setState hocc.1, if_neg hx]
  · have ha := h.out_iff.mp ht
    rw [Arena.state_setState hocc.1, if_pos rfl]
    rw [hs] at ha
    cases e with
    | insert => exact ⟨rfl, rfl⟩
    | update => exact ⟨rfl, rfl⟩
    | retract => cases ha

/-- A tuple that was taken back before its readers saw it frees its slot at once. -/
theorem Next.begin_none (h : Next a outs waiting owner id t ts) (hb : a.begin t = (none, a')) :
    Holdings a' outs (Function.update waiting id ts.toArray) owner none := by
  obtain ⟨hocc, hpending, -, -⟩ := h.head
  obtain ⟨hs, rfl⟩ := Arena.begin_eq_none hpending hb
  refine h.change (h.holdings.valid.release hocc) (fun x hx => ?_) (fun x hx => ?_) (fun ht => ?_)
    fun ht => ?_
  · rw [Arena.state_release hocc.1, if_neg hx]
  · rw [Arena.occupied_release]
    exact and_iff_left hx
  · have ha := h.out_iff.mp ht
    rw [hs] at ha
    cases ha
  · exact absurd rfl (Arena.occupied_release _ |>.mp ht).2

/-- A tuple that is still an output is held by its owner when its readers have been told. -/
theorem told_out (h : Holdings a outs waiting owner (some t)) (ht : t ∈ outs (owner t)) :
    Holdings a outs waiting owner none := by
  refine ⟨h.valid, h.tended, h.owner_out, h.owner_waiting, fun x hx => ?_⟩
  rcases h.covered x hx with hO | hq | hxt
  · exact Or.inl hO
  · exact Or.inr (Or.inl hq)
  · exact Or.inl (Option.some.inj hxt ▸ ht)

/-- The slot of a tuple that its readers were told to drop is free again. -/
theorem told_release (h : Holdings a outs waiting owner (some t)) (ht : a.Occupied t)
    (hout : ∀ j, t ∉ outs j) (hwaiting : ∀ j, t ∉ (waiting j).toList) :
    Holdings (a.release t) outs waiting owner none := by
  have hstate : ∀ x, x ≠ t → (a.release t).state x = a.state x := fun x hx => by
    rw [Arena.state_release ht.1, if_neg hx]
  refine ⟨h.valid.release ht, fun j => (h.tended j).congr (h.valid.release ht) (fun x hx => ?_)
    fun x hx => ?_, h.owner_out, h.owner_waiting, fun x hx => ?_⟩
  · exact hstate x fun hxt => hout j (hxt ▸ hx)
  · exact hstate x fun hxt => hwaiting j (hxt ▸ hx)
  · obtain ⟨hx, hxt⟩ := (Arena.occupied_release x).mp hx
    rcases h.covered x hx with hO | hq | ht
    · exact Or.inl hO
    · exact Or.inr (Or.inl hq)
    · exact absurd (Option.some.inj ht).symm hxt

end Told

end Holdings

end ConstraintScoring
