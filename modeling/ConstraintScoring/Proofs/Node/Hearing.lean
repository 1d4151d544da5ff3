import ConstraintScoring.Proofs.Tuple.Work
import ConstraintScoring.Stream.Function

/-!
# What a node has heard

A node knows the tuples whose insertion it was told of on some side and whose retraction it was not
told of. What it was last told of a tuple is fresh as long as the tuple still has the row it had
then.
-/

namespace ConstraintScoring

structure Hearing where
  known : Side → TupleId → Prop
  fresh : Side → TupleId → Prop
  known_of_fresh : ∀ side t, fresh side t → known side t

namespace Hearing

/-- After being told of an event of a tuple on a side. -/
def hear (h : Hearing) (side : Side) (event : Event) (t : TupleId) : Hearing :=
  match event with
  | .insert | .update =>
      ⟨fun σ x => σ = side ∧ x = t ∨ h.known σ x, fun σ x => σ = side ∧ x = t ∨ h.fresh σ x,
        fun σ x => Or.imp id (h.known_of_fresh σ x)⟩
  | .retract =>
      ⟨fun σ x => h.known σ x ∧ ¬(σ = side ∧ x = t), fun σ x => h.fresh σ x ∧ ¬(σ = side ∧ x = t),
        fun σ x => And.imp (h.known_of_fresh σ x) id⟩

/-- Insertions are told of unknown tuples, all else of known ones. -/
def Expects (h : Hearing) (side : Side) (event : Event) (t : TupleId) : Prop :=
  match event with
  | .insert => ¬h.known side t
  | .update | .retract => h.known side t

/-- A tuple the node knows or is just being told of. -/
def Input (h : Hearing) (side : Side) (t : TupleId) (σ : Side) (x : TupleId) : Prop :=
  σ = side ∧ x = t ∨ h.known σ x

/-- The tuples a node may read while it hears of an event. -/
def inputs (h : Hearing) (side : Side) (t : TupleId) (x : TupleId) : Prop :=
  ∃ σ, h.Input side t σ x

theorem inputs_self (h : Hearing) (side : Side) (t : TupleId) : h.inputs side t t :=
  ⟨side, Or.inl ⟨rfl, rfl⟩⟩

theorem inputs_of_fresh {h : Hearing} {side σ : Side} {t x : TupleId} (hx : h.fresh σ x) :
    h.inputs side t x := ⟨σ, Or.inr (h.known_of_fresh σ x hx)⟩

end Hearing

namespace Staging

variable {V : Type}

/-- Tended outputs, none of which is one of the tuples in `I`, and these are occupied. -/
structure Clear (s : Staging V) (O : List TupleId) (I : TupleId → Prop) : Prop where
  tended : Tended s O
  occupied : ∀ t, I t → s.arena.Occupied t
  apart : ∀ t, I t → t ∉ O

namespace Clear

variable {W : Row V → Prop} {s s' : Staging V} {O O' : List TupleId} {I I' : TupleId → Prop}

theorem mono (h : Clear s O I) (hI : ∀ t, I' t → I t) : Clear s O I' :=
  ⟨h.tended, fun t ht => h.occupied t (hI t ht), fun t ht => h.apart t (hI t ht)⟩

theorem work (h : Clear s O I) (w : Work W s O s' O') : Clear s' O' I := by
  have hk := w.kept h.tended
  refine ⟨hk.tended, fun t ht => hk.occupied t (h.occupied t ht), fun t ht hO => ?_⟩
  exact (hk.outputs t hO).elim (h.apart t ht) fun hn => hn (h.occupied t ht)

/-- Work does not touch the rows of the inputs. -/
theorem row (h : Clear s O I) (w : Work W s O s' O') {t : TupleId} (ht : I t) :
    s'.arena.row t = s.arena.row t :=
  (w.kept h.tended).row_other t (h.occupied t ht) (h.apart t ht)

theorem row_inserted (h : Clear s O I) {row : Row V} {t : TupleId} (ht : I t) :
    (s.inserted row).arena.row t = s.arena.row t := by
  rw [Staging.row_inserted h.tended.valid, if_neg]
  exact fun hx => s.arena.not_occupied_next (hx ▸ h.occupied t ht)

theorem next_not_mem (h : Clear s O I) : s.arena.next ∉ O := fun hO =>
  s.arena.not_occupied_next (h.tended.occupied hO)

end Clear

end Staging

end ConstraintScoring
