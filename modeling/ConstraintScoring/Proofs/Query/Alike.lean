import ConstraintScoring.Proofs.Query.Meaning
import ConstraintScoring.Proofs.Same

/-!
# Functions that treat equal rows alike

Cells are equal if they compare as equal, and equal cells may still differ. The functions of a query
treat equal rows alike if they give them equal results, or, in the stronger sense, also fail on
both or on none. A query of such functions denotes the same rows up to equality, whatever stands
for equal cells.
-/

namespace ConstraintScoring

variable {V α β γ : Type}

/-- How far computations on equal rows are to agree. -/
inductive Likeness where
  /-- Their results are equal if both have one. -/
  | results
  /-- They have equal results or both fail. -/
  | outcomes
deriving DecidableEq

namespace Likeness

structure Agree (k : Likeness) (R : α → β → Prop) (x : Except Fault α) (y : Except Fault β) :
    Prop where
  results : ∀ a b, x = .ok a → y = .ok b → R a b
  outcomes : k = .outcomes → ((∃ a, x = .ok a) ↔ ∃ b, y = .ok b)

variable {k : Likeness} {R : α → β → Prop} {x : Except Fault α} {y : Except Fault β}

theorem agree_ok {a : α} {b : β} (h : R a b) :
    k.Agree R (Except.ok a : Except Fault α) (Except.ok b : Except Fault β) where
  results a' b' ha hb := by
    cases ha
    cases hb
    exact h
  outcomes _ := ⟨fun _ => ⟨b, rfl⟩, fun _ => ⟨a, rfl⟩⟩

theorem agree_error (f g : Fault) :
    k.Agree R (Except.error f : Except Fault α) (Except.error g : Except Fault β) where
  results a b ha := by cases ha
  outcomes _ := iff_of_false (fun ⟨a, ha⟩ => by cases ha) fun ⟨b, hb⟩ => by cases hb

theorem Agree.weaken (h : k.Agree R x y) : Likeness.results.Agree R x y where
  results := h.results
  outcomes hk := by cases hk

theorem Agree.mono {R' : α → β → Prop} (h : k.Agree R x y) (hR : ∀ a b, R a b → R' a b) :
    k.Agree R' x y where
  results a b ha hb := hR a b (h.results a b ha hb)
  outcomes := h.outcomes

theorem Agree.bind {α' β' : Type} {R' : α' → β' → Prop} {f : α → Except Fault α'}
    {g : β → Except Fault β'} (h : k.Agree R x y) (hfg : ∀ a b, R a b → k.Agree R' (f a) (g b)) :
    k.Agree R' (x >>= f) (y >>= g) where
  results a' b' ha hb := by
    obtain ⟨a, hx, ha⟩ := Outcome.bind_eq_ok.mp ha
    obtain ⟨b, hy, hb⟩ := Outcome.bind_eq_ok.mp hb
    exact (hfg a b (h.results a b hx hy)).results a' b' ha hb
  outcomes hk := by
    constructor
    · rintro ⟨a', ha'⟩
      obtain ⟨a, hx, ha'⟩ := Outcome.bind_eq_ok.mp ha'
      obtain ⟨b, hy⟩ := (h.outcomes hk).mp ⟨a, hx⟩
      obtain ⟨b', hb'⟩ := ((hfg a b (h.results a b hx hy)).outcomes hk).mp ⟨a', ha'⟩
      exact ⟨b', Outcome.bind_eq_ok.mpr ⟨b, hy, hb'⟩⟩
    · rintro ⟨b', hb'⟩
      obtain ⟨b, hy, hb'⟩ := Outcome.bind_eq_ok.mp hb'
      obtain ⟨a, hx⟩ := (h.outcomes hk).mpr ⟨b, hy⟩
      obtain ⟨a', ha'⟩ := ((hfg a b (h.results a b hx hy)).outcomes hk).mpr ⟨b', hb'⟩
      exact ⟨a', Outcome.bind_eq_ok.mpr ⟨a, hx, ha'⟩⟩

theorem agree_mapM {ι : Type} {f : ι → Except Fault α} {g : ι → Except Fault β} {xs : List ι}
    (h : ∀ i ∈ xs, k.Agree R (f i) (g i)) : k.Agree (List.Forall₂ R) (xs.mapM f) (xs.mapM g) := by
  induction xs with
  | nil => exact agree_ok .nil
  | cons i xs ih =>
      rw [List.mapM_cons, List.mapM_cons]
      refine (h i List.mem_cons_self).bind fun a b hab => ?_
      refine (ih fun j hj => h j (List.mem_cons_of_mem i hj)).bind fun as bs hs => ?_
      exact agree_ok (.cons hab hs)

end Likeness

section Equality

variable [Cell V]

abbrev SameCell (v w : V) : Prop := Cell.same v w = true

abbrev SameRow (row row' : Row V) : Prop := Cell.sameAll row row' = true

/-- Facts of one class with the same cell. -/
def SameFact (f g : Fact V) : Prop := f.type = g.type ∧ f.cell = g.cell

structure SameMember (m m' : GroupMember V) : Prop where
  key : (m.key == m'.key) = true
  contributions : List.Forall₂ Contribution.Same m.contributions m'.contributions

/-- Equal rows are treated alike. -/
def Alike (k : Likeness) (R : β → β → Prop) (f : Row V → Except Fault β) : Prop :=
  ∀ row row', SameRow row row' → k.Agree R (f row) (f row')

structure Collector.Alike (k : Likeness) (c : Collector V) : Prop where
  contribution : ConstraintScoring.Alike k Contribution.Same c.contribution.run
  present : ∀ x y : Collected V, x.Same y → SameCell (c.present x) (c.present y)

theorem Alike.weaken {k : Likeness} {R : β → β → Prop} {f : Row V → Except Fault β}
    (h : Alike k R f) : Alike .results R f := fun row row' hrow => (h row row' hrow).weaken

theorem Collector.Alike.weaken {k : Likeness} {c : Collector V} (h : c.Alike k) :
    c.Alike .results := ⟨h.contribution.weaken, h.present⟩

structure JoinIndexer.Alike (k : Likeness) (j : JoinIndexer V) : Prop where
  left : ∀ f ∈ j.left, ConstraintScoring.Alike k SameCell f
  right : ∀ f ∈ j.right, ConstraintScoring.Alike k SameCell f
  conditions : ∀ c ∈ j.conditions, ∀ l l' r r', SameRow l l' → SameRow r r' →
    k.Agree Eq (c l r) (c l' r')

theorem JoinIndexer.Alike.weaken {k : Likeness} {j : JoinIndexer V} (h : j.Alike k) :
    j.Alike .results where
  left f hf := (h.left f hf).weaken
  right f hf := (h.right f hf).weaken
  conditions c hc l l' r r' hl hr := (h.conditions c hc l l' r r' hl hr).weaken

def Operation.Alike (k : Likeness) : Operation V → Prop
  | filter accepts => ConstraintScoring.Alike k Eq accepts
  | map columns => ∀ f ∈ columns, ConstraintScoring.Alike k SameCell f
  | flattenLast expand => ConstraintScoring.Alike k (List.Forall₂ SameCell) expand
  | group keys collectors =>
      (∀ f ∈ keys, ConstraintScoring.Alike k SameCell f) ∧ ∀ c ∈ collectors, c.Alike k
  | join indexer | «exists» _ indexer => indexer.Alike k
  | source _ _ | foreBridge _ | aftBridge | concat | score _ => True

theorem Operation.Alike.weaken {k : Likeness} {op : Operation V} (h : op.Alike k) :
    op.Alike .results := by
  cases op with
  | filter _ | flattenLast _ => exact ConstraintScoring.Alike.weaken h
  | map _ => exact fun f hf => (h f hf).weaken
  | group _ _ => exact ⟨fun f hf => (h.1 f hf).weaken, fun c hc => (h.2 c hc).weaken⟩
  | join _ | «exists» _ _ => exact JoinIndexer.Alike.weaken h
  | source _ _ | foreBridge _ | aftBridge | concat | score _ => trivial

def Query.Alike (k : Likeness) : Query V → Prop
  | source _ _ => True
  | filter accepts q => ConstraintScoring.Alike k Eq accepts ∧ q.Alike k
  | map columns q => (∀ f ∈ columns, ConstraintScoring.Alike k SameCell f) ∧ q.Alike k
  | flattenLast expand q =>
      ConstraintScoring.Alike k (List.Forall₂ SameCell) expand ∧ q.Alike k
  | group keys collectors q => ((∀ f ∈ keys, ConstraintScoring.Alike k SameCell f) ∧
      ∀ c ∈ collectors, c.Alike k) ∧ q.Alike k
  | concat q r => q.Alike k ∧ r.Alike k
  | join indexer q r | «exists» _ indexer q r => indexer.Alike k ∧ q.Alike k ∧ r.Alike k

/-- The queries of a graph are made of its operations. -/
theorem Unfolds.alike {k : Likeness} {D : Declared V} {id : DeclId} {q : Query V}
    (h : Unfolds D id q) (hD : ∀ id c, D id = some c → c.operation.Alike k) : q.Alike k := by
  have hunnamed : ∀ collectors : List (Collector V), (∀ c ∈ collectors, c.Alike k) →
      ∀ c ∈ collectors.map (·.unnamed), c.Alike k := by
    intro collectors hc c hmem
    obtain ⟨d, hd, rfl⟩ := List.mem_map.mp hmem
    exact ⟨(hc d hd).contribution, (hc d hd).present⟩
  induction h with
  | leaf hc hp hq =>
      have hop := hD _ _ hc
      revert hop hq
      cases ‹Candidate V›.operation <;> intro hq hop <;> cases hq
      trivial
  | unary hc hp _ hq ih =>
      have hop := hD _ _ hc
      revert hop hq
      cases ‹Candidate V›.operation <;> intro hq hop <;> cases hq
      case unary.foreBridge.refl | unary.aftBridge.refl | unary.score.refl => exact ih
      case unary.group.refl => exact ⟨⟨hop.1, hunnamed _ hop.2⟩, ih⟩
      all_goals exact ⟨hop, ih⟩
  | binary hc hp _ _ hq ih ih' =>
      have hop := hD _ _ hc
      revert hop hq
      cases ‹Candidate V›.operation <;> intro hq hop <;> cases hq
      case binary.concat.refl => exact ⟨ih, ih'⟩
      all_goals exact ⟨hop, ih, ih'⟩

end Equality

end ConstraintScoring
