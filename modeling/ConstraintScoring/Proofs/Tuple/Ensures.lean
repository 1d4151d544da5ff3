import ConstraintScoring.Proofs.Outcome
import ConstraintScoring.Proofs.Tuple.Occupancy

/-!
# What a piece of node work ensures

`Ensures x s Q R` says of the work `x`, begun in the staging `s`: if it comes to an end its result
and the staging it leaves satisfy `Q`, and if it is stopped the fault satisfies `R`. Staging a
change of an active tuple never stops the work.
-/

namespace ConstraintScoring

variable {V : Type}

namespace Staging

/-- After a new tuple was staged. -/
def inserted (s : Staging V) (row : Row V) : Staging V :=
  ⟨(s.arena.create row).2, s.queue.push s.arena.next⟩

/-- After the row of an active tuple was replaced. -/
def updated (s : Staging V) (t : TupleId) (row : Row V) : Staging V :=
  match s.arena.state t with
  | .ok => ⟨s.arena.put t ⟨row, .updating⟩, s.queue.push t⟩
  | state => { s with arena := s.arena.put t ⟨row, state⟩ }

/-- After an active tuple was taken back. -/
def retracted (s : Staging V) (t : TupleId) : Staging V :=
  match s.arena.state t with
  | .ok => ⟨s.arena.setState t .dying, s.queue.push t⟩
  | .updating => { s with arena := s.arena.setState t .dying }
  | _ => { s with arena := s.arena.setState t .aborting }

end Staging

namespace Stage

variable {α β : Type}

def Ensures (x : Stage V α) (s : Staging V) (Q : α → Staging V → Prop) (R : Fault → Prop) : Prop :=
  match x.run.run s with
  | (.ok a, s') => Q a s'
  | (.error f, _) => R f

variable {s : Staging V} {Q Q' : α → Staging V → Prop} {R R' : Fault → Prop}

theorem Ensures.mono {x : Stage V α} (h : x.Ensures s Q R) (hQ : ∀ a s', Q a s' → Q' a s')
    (hR : ∀ f, R f → R' f) : x.Ensures s Q' R' := by
  unfold Ensures at h ⊢
  split
  · rename_i a s' hrun
    rw [hrun] at h
    exact hQ a s' h
  · rename_i f s' hrun
    rw [hrun] at h
    exact hR f h

theorem Ensures.ok {x : Stage V α} (h : x.Ensures s Q R) {a : α} {s' : Staging V}
    (hrun : x.run.run s = (.ok a, s')) : Q a s' := by
  unfold Ensures at h
  rwa [hrun] at h

theorem Ensures.error {x : Stage V α} (h : x.Ensures s Q R) {f : Fault} {s' : Staging V}
    (hrun : x.run.run s = (.error f, s')) : R f := by
  unfold Ensures at h
  rwa [hrun] at h

theorem Ensures.and {x : Stage V α} (h : x.Ensures s Q R) (h' : x.Ensures s Q' R') :
    x.Ensures s (fun a s' => Q a s' ∧ Q' a s') fun f => R f ∧ R' f := by
  unfold Ensures at h h' ⊢
  split <;> rename_i hrun <;> simp only [hrun] at h h' <;> exact ⟨h, h'⟩

/-- Nothing is asked of the first part of the work. -/
theorem Ensures.bind_any {x : Stage V α} {f : α → Stage V β} {Q : β → Staging V → Prop}
    (h : ∀ a s', (f a).Ensures s' Q fun _ => True) : (x >>= f).Ensures s Q fun _ => True := by
  unfold Ensures
  rw [Outcome.run_bind]
  rcases x.run.run s with ⟨e | a, s'⟩
  · trivial
  · exact h a s'

theorem Ensures.of_pure {a : α} (h : Q a s) : (pure a : Stage V α).Ensures s Q R := h

theorem Ensures.of_bind {x : Stage V α} {f : α → Stage V β} {Q : β → Staging V → Prop}
    (h : x.Ensures s (fun a s' => (f a).Ensures s' Q R) R) : (x >>= f).Ensures s Q R := by
  unfold Ensures at h ⊢
  rw [Outcome.run_bind]
  rcases hx : x.run.run s with ⟨e | a, s'⟩ <;> simp only [hx] at h ⊢ <;> exact h

theorem Ensures.of_rowOf {t : TupleId} {Q : Row V → Staging V → Prop} (h : Q (s.arena.row t) s) :
    (rowOf t).Ensures s Q R := h

theorem Ensures.of_except {x : Except Fault α} (hok : ∀ a, x = .ok a → Q a s)
    (herror : ∀ f, x = .error f → R f) : (ofExcept x : Stage V α).Ensures s Q R := by
  cases x with
  | ok a => exact hok a rfl
  | error f => exact herror f rfl

theorem Ensures.of_insert {row : Row V} {Q : TupleId → Staging V → Prop}
    (h : Q s.arena.next (s.inserted row)) : (insert row).Ensures s Q R := by
  rw [← s.arena.create_fst row] at h
  unfold Staging.inserted at h
  rw [← s.arena.create_fst row] at h
  exact h

theorem Ensures.of_update {t : TupleId} {row : Row V} {Q : Unit → Staging V → Prop}
    (ht : (s.arena.state t).isActive) (h : Q () (s.updated t row)) :
    (update t row).Ensures s Q R := by
  have hrun : (update t row).run.run s = (.ok (), s.updated t row) := by
    unfold update Staging.updated
    rw [Outcome.run_get_bind]
    cases hs : s.arena.state t <;> simp_all [TupleState.isActive] <;> rfl
  unfold Ensures
  rw [hrun]
  exact h

theorem Ensures.of_retract {t : TupleId} {Q : Unit → Staging V → Prop}
    (ht : (s.arena.state t).isActive) (h : Q () (s.retracted t)) :
    (retract t).Ensures s Q R := by
  have hrun : (retract t).run.run s = (.ok (), s.retracted t) := by
    unfold retract Staging.retracted
    rw [Outcome.run_get_bind]
    cases hs : s.arena.state t <;> simp_all [TupleState.isActive] <;> rfl
  unfold Ensures
  rw [hrun]
  exact h

theorem ofExcept_map_bind {γ : Type} (x : Except Fault α) (f : α → β) (g : β → Stage V γ) :
    (ofExcept (x.map f) >>= g) = ofExcept x >>= fun a => g (f a) := by
  cases x <;> rfl

theorem ofExcept_bind_congr {x : Except Fault α} {f g : α → Stage V β}
    (h : ∀ a, x = .ok a → f a = g a) : (ofExcept x >>= f) = ofExcept x >>= g := by
  cases x with
  | error _ => rfl
  | ok a => exact h a rfl

end Stage

end ConstraintScoring
