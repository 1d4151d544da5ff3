import ConstraintScoring.Tuple.Arena
import Mathlib.Data.List.Perm.Basic
import Mathlib.Data.List.Nodup

/-!
# Occupied slots

A slot is occupied unless it is on the free list. In a valid arena the free list names every free
slot once, free slots are dead, and the number of live tuples is the number of occupied slots.
-/

namespace ConstraintScoring

namespace TupleState

/-- Whether a change is staged that the readers have not heard of. -/
def isPending : TupleState → Bool
  | creating | updating | dying | aborting => true
  | ok | dead => false

/-- Whether the readers have heard of the tuple and have not been told to drop it. -/
def isSeen : TupleState → Bool
  | ok | updating | dying => true
  | creating | aborting | dead => false

end TupleState

namespace Event

/-- The state of a tuple whose change is staged. -/
def staged : Event → TupleState
  | insert => .creating
  | update => .updating
  | retract => .dying

/-- The state of a tuple while its readers hear of the event. -/
def announced : Event → TupleState
  | insert | update => .ok
  | retract => .dead

end Event

namespace Arena

variable {V : Type}

def Occupied (a : Arena V) (t : TupleId) : Prop := t < a.slots.size ∧ t ∉ a.free

instance (a : Arena V) (t : TupleId) : Decidable (a.Occupied t) :=
  inferInstanceAs (Decidable (_ ∧ _))

structure Valid (a : Arena V) : Prop where
  free_nodup : a.free.Nodup
  free_lt : ∀ t ∈ a.free, t < a.slots.size
  free_dead : ∀ t ∈ a.free, a.state t = .dead
  live_eq : a.live + a.free.length = a.slots.size

theorem valid_empty : (empty : Arena V).Valid :=
  ⟨List.nodup_nil, by simp [empty], by simp [empty], rfl⟩

theorem state_of_size_le {a : Arena V} {t : TupleId} (h : a.slots.size ≤ t) :
    a.state t = .dead := by
  simp [state, Array.getElem?_eq_none h]

theorem Valid.occupied_of_state {a : Arena V} (h : a.Valid) {t : TupleId}
    (ht : a.state t ≠ .dead) : a.Occupied t := by
  constructor
  · by_contra hlt
    exact ht (state_of_size_le (Nat.le_of_not_lt hlt))
  · intro hfree
    exact ht (h.free_dead t hfree)

theorem Valid.occupied_of_active {a : Arena V} (h : a.Valid) {t : TupleId}
    (ht : (a.state t).isActive) : a.Occupied t :=
  h.occupied_of_state fun hd => by simp [hd, TupleState.isActive] at ht

/-- The number of live tuples is the number of occupied slots. -/
theorem Valid.live_eq_length {a : Arena V} (h : a.Valid) :
    a.live = ((List.range a.slots.size).filter fun t => decide (a.Occupied t)).length := by
  have hsplit : (List.range a.slots.size).length =
      ((List.range a.slots.size).filter fun t => decide (a.Occupied t)).length +
        ((List.range a.slots.size).filter fun t => !decide (a.Occupied t)).length :=
    List.length_eq_length_filter_add _
  have hfree : ((List.range a.slots.size).filter fun t => !decide (a.Occupied t)).Perm a.free := by
    refine (List.perm_ext_iff_of_nodup (List.nodup_range.filter _) h.free_nodup).mpr fun t => ?_
    rw [List.mem_filter, List.mem_range, Bool.not_eq_true', decide_eq_false_iff_not]
    constructor
    · rintro ⟨hlt, hocc⟩
      by_contra hfree
      exact hocc ⟨hlt, hfree⟩
    · intro hfree
      exact ⟨h.free_lt t hfree, fun hocc => hocc.2 hfree⟩
  have hlive := h.live_eq
  have hlen := hfree.length_eq
  rw [List.length_range] at hsplit
  omega

section Put

variable {a : Arena V} {t : TupleId} {c : Slot V}

@[simp] theorem free_put : (a.put t c).free = a.free := rfl

@[simp] theorem live_put : (a.put t c).live = a.live := rfl

@[simp] theorem size_put : (a.put t c).slots.size = a.slots.size := by simp [put]

@[simp] theorem occupied_put (x : TupleId) : (a.put t c).Occupied x ↔ a.Occupied x := by
  simp [Occupied]

theorem state_put (ht : t < a.slots.size) (x : TupleId) :
    (a.put t c).state x = if x = t then c.state else a.state x := by
  by_cases hx : x = t
  · subst hx
    simp [state, put, ht]
  · simp [state, put, hx, Ne.symm hx]

theorem row_put (ht : t < a.slots.size) (x : TupleId) :
    (a.put t c).row x = if x = t then c.row else a.row x := by
  by_cases hx : x = t
  · subst hx
    simp [row, put, ht]
  · simp [row, put, hx, Ne.symm hx]

theorem Valid.put (h : a.Valid) (ht : a.Occupied t) : (a.put t c).Valid := by
  refine ⟨h.free_nodup, by simpa using h.free_lt, fun x hx => ?_, by simpa using h.live_eq⟩
  have hxt : x ≠ t := fun hxt => ht.2 (hxt ▸ hx)
  rw [state_put ht.1, if_neg hxt]
  exact h.free_dead x hx

end Put

section SetState

variable {a : Arena V} {t : TupleId} {s : TupleState}

@[simp] theorem occupied_setState (x : TupleId) : (a.setState t s).Occupied x ↔ a.Occupied x :=
  occupied_put x

theorem state_setState (ht : t < a.slots.size) (x : TupleId) :
    (a.setState t s).state x = if x = t then s else a.state x := state_put ht x

@[simp] theorem row_setState (x : TupleId) : (a.setState t s).row x = a.row x := by
  by_cases ht : t < a.slots.size
  · by_cases hx : x = t
    · subst hx
      rw [setState, row_put ht, if_pos rfl]
    · rw [setState, row_put ht, if_neg hx]
  · simp [setState, put, row, Array.setIfInBounds, ht]

theorem Valid.setState (h : a.Valid) (ht : a.Occupied t) : (a.setState t s).Valid := h.put ht

end SetState

section Create

variable {a : Arena V} {r : Row V}

/-- The slot that the next tuple gets. -/
def next (a : Arena V) : TupleId := a.free.headD a.slots.size

theorem create_fst (a : Arena V) (r : Row V) : (a.create r).1 = a.next := by
  unfold create next
  cases a.free <;> rfl

theorem not_occupied_next (a : Arena V) : ¬a.Occupied a.next := by
  unfold next Occupied
  cases hf : a.free with
  | nil => simp
  | cons t free => simp

theorem Valid.occupied_create (h : a.Valid) (x : TupleId) :
    (a.create r).2.Occupied x ↔ x = a.next ∨ a.Occupied x := by
  cases hf : a.free with
  | nil =>
      have hlt : x < a.slots.size + 1 ↔ x = a.slots.size ∨ x < a.slots.size := by
        rw [Nat.lt_succ_iff_lt_or_eq, or_comm]
      simpa [create, next, Occupied, hf] using hlt
  | cons t free =>
      have hnodup := List.nodup_cons.mp (hf ▸ h.free_nodup)
      have hlt := h.free_lt t (by simp [hf])
      by_cases hx : x = t
      · subst hx
        simp [create, next, Occupied, hf, hlt, hnodup.1]
      · simp [create, next, Occupied, hf, hx]

theorem Valid.state_create (h : a.Valid) (x : TupleId) :
    (a.create r).2.state x = if x = a.next then .creating else a.state x := by
  cases hf : a.free with
  | nil =>
      have hnext : a.next = a.slots.size := by simp [next, hf]
      by_cases hx : x = a.slots.size
      · subst hx
        simp [create, hf, hnext, state]
      · simp [create, hf, hnext, hx, state, Array.getElem?_push]
  | cons t free =>
      have hnext : a.next = t := by simp [next, hf]
      have hlt := h.free_lt t (by simp [hf])
      have hput := state_put (a := a) (c := ⟨r, .creating⟩) hlt x
      simpa [create, hf, hnext, state] using hput

theorem Valid.row_create (h : a.Valid) (x : TupleId) :
    (a.create r).2.row x = if x = a.next then r else a.row x := by
  cases hf : a.free with
  | nil =>
      have hnext : a.next = a.slots.size := by simp [next, hf]
      by_cases hx : x = a.slots.size
      · subst hx
        simp [create, hf, hnext, Arena.row]
      · simp [create, hf, hnext, hx, Arena.row, Array.getElem?_push]
  | cons t free =>
      have hnext : a.next = t := by simp [next, hf]
      have hlt := h.free_lt t (by simp [hf])
      have hput := row_put (a := a) (c := ⟨r, .creating⟩) hlt x
      simpa [create, hf, hnext, Arena.row] using hput

theorem Valid.create (h : a.Valid) : (a.create r).2.Valid := by
  have hlive := h.live_eq
  cases hf : a.free with
  | nil =>
      have hcreate : (a.create r).2 =
          { a with slots := a.slots.push ⟨r, .creating⟩, live := a.live + 1 } := by
        simp [Arena.create, hf]
      rw [hcreate]
      refine ⟨h.free_nodup, by simp [hf], by simp [hf], ?_⟩
      simp only [hf, List.length_nil, Array.size_push] at hlive ⊢
      omega
  | cons t free =>
      have hcreate : (a.create r).2 =
          { a.put t ⟨r, .creating⟩ with free, live := a.live + 1 } := by
        simp [Arena.create, hf]
      have hnodup := List.nodup_cons.mp (hf ▸ h.free_nodup)
      refine ⟨?_, fun x hx => ?_, fun x hx => ?_, ?_⟩
      · rw [hcreate]
        exact hnodup.2
      · rw [hcreate] at hx ⊢
        simpa [put] using h.free_lt x (by simp [hf, hx])
      · rw [hcreate] at hx
        have hxt : x ≠ t := fun hxt => hnodup.1 (hxt ▸ hx)
        rw [h.state_create x, if_neg (by simpa [next, hf] using hxt)]
        exact h.free_dead x (by simp [hf, hx])
      · have hsize : (a.create r).2.slots.size = a.slots.size := by simp [hcreate]
        rw [hsize, hcreate]
        simp only [hf, List.length_cons] at hlive ⊢
        omega

end Create

section Release

variable {a : Arena V} {t : TupleId}

theorem occupied_release (x : TupleId) :
    (a.release t).Occupied x ↔ a.Occupied x ∧ x ≠ t := by
  simp only [release, Occupied, put, Array.size_setIfInBounds, List.mem_cons, not_or]
  tauto

theorem state_release (ht : t < a.slots.size) (x : TupleId) :
    (a.release t).state x = if x = t then .dead else a.state x := by
  have hput := state_put (a := a) (c := ⟨[], .dead⟩) ht x
  simpa [release, state] using hput

theorem state_release_other {x : TupleId} (hx : x ≠ t) : (a.release t).state x = a.state x := by
  by_cases ht : t < a.slots.size
  · rw [state_release ht, if_neg hx]
  · simp [release, put, state, Array.setIfInBounds, ht]

theorem row_release_other {x : TupleId} (hx : x ≠ t) : (a.release t).row x = a.row x := by
  by_cases ht : t < a.slots.size
  · have hput := row_put (a := a) (c := ⟨[], .dead⟩) ht x
    simpa [release, row, hx] using hput
  · simp [release, put, row, Array.setIfInBounds, ht]

theorem Valid.live_pos (h : a.Valid) (ht : a.Occupied t) : 0 < a.live := by
  have hmem : t ∈ (List.range a.slots.size).filter fun t => decide (a.Occupied t) := by
    simp [ht, ht.1]
  rw [h.live_eq_length]
  exact List.length_pos_of_mem hmem

theorem Valid.release (h : a.Valid) (ht : a.Occupied t) : (a.release t).Valid := by
  have hlive := h.live_eq
  have hpos := h.live_pos ht
  refine ⟨List.nodup_cons.mpr ⟨ht.2, h.free_nodup⟩, ?_, ?_, ?_⟩
  · intro x hx
    rcases List.mem_cons.mp hx with rfl | hx
    · simpa [Arena.release, put] using ht.1
    · simpa [Arena.release, put] using h.free_lt x hx
  · intro x hx
    rw [state_release ht.1]
    by_cases hxt : x = t
    · rw [if_pos hxt]
    · rw [if_neg hxt]
      rcases List.mem_cons.mp hx with rfl | hx
      · exact absurd rfl hxt
      · exact h.free_dead x hx
  · have hsize : (a.release t).slots.size = a.slots.size := by simp [Arena.release]
    rw [hsize]
    simp only [Arena.release, List.length_cons]
    omega

end Release

section Begin

variable {a a' : Arena V} {t : TupleId} {e : Event}

/-- Beginning to propagate a tuple turns the state that stands for an event into the state in which
the readers hear of it. -/
theorem begin_eq_some : a.begin t = (some e, a') ↔
    a.state t = e.staged ∧ a' = a.setState t e.announced := by
  unfold begin
  cases hs : a.state t <;> cases e <;> simp [Event.staged, Event.announced, eq_comm]

theorem begin_eq_none (ht : (a.state t).isPending) (h : a.begin t = (none, a')) :
    a.state t = .aborting ∧ a' = a.release t := by
  unfold begin at h
  cases hs : a.state t <;> simp_all [TupleState.isPending]

/-- Beginning to propagate a tuple leaves all others as they are. -/
theorem state_begin {x : TupleId} (ht : a.Occupied t) (hp : (a.state t).isPending)
    {e : Option Event} (h : a.begin t = (e, a')) (hx : x ≠ t) : a'.state x = a.state x := by
  cases e with
  | none =>
      obtain ⟨-, rfl⟩ := begin_eq_none hp h
      exact state_release_other hx
  | some e =>
      obtain ⟨-, rfl⟩ := begin_eq_some.mp h
      rw [state_setState ht.1, if_neg hx]

end Begin

end Arena

end ConstraintScoring
