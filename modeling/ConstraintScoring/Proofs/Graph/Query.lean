import ConstraintScoring.Proofs.Graph.Shape
import Mathlib.Data.List.Forall2

/-!
# The query of a declaration

A query is what a stream computes, written out as a tree, with nothing in it that tells which steps
a graph shares. A graph unfolds into the queries of its declarations: bridges and the ends of
streams hand on the query of their parent.
-/

namespace ConstraintScoring

variable {V : Type}

inductive Query (V : Type) where
  | source (type : String) (includeUnassigned : Bool)
  | filter (accepts : Row V → Except Fault Bool) (q : Query V)
  | map (columns : List (Row V → Except Fault V)) (q : Query V)
  | flattenLast (expand : Row V → Except Fault (List V)) (q : Query V)
  | group (keys : List (Row V → Except Fault V)) (collectors : List (Collector V)) (q : Query V)
  | concat (q r : Query V)
  | join (indexer : JoinIndexer V) (q r : Query V)
  | exists (shouldExist : Bool) (indexer : JoinIndexer V) (q r : Query V)

/-- A collector without the name of its function. -/
def Collector.unnamed (c : Collector V) : Collector V := ⟨c.kind, ⟨none, c.contribution.run⟩, c.present⟩

/-- The query of an operation, given those of its parents. -/
def Operation.query : Operation V → List (Query V) → Option (Query V)
  | source type includeUnassigned, [] => some (.source type includeUnassigned)
  | foreBridge _, [q] | aftBridge, [q] | score _, [q] => some q
  | filter accepts, [q] => some (.filter accepts q)
  | map columns, [q] => some (.map columns q)
  | flattenLast expand, [q] => some (.flattenLast expand q)
  | group keys collectors, [q] => some (.group keys (collectors.map (·.unnamed)) q)
  | concat, [q, r] => some (.concat q r)
  | join indexer, [q, r] => some (.join indexer q r)
  | «exists» shouldExist indexer, [q, r] => some (.exists shouldExist indexer q r)
  | _, _ => none

/-- A declaration computes a query. -/
inductive Unfolds (D : Declared V) : DeclId → Query V → Prop where
  | leaf {id c q} : D id = some c → c.key.parents = [] → c.operation.query [] = some q →
      Unfolds D id q
  | unary {id p c q q'} : D id = some c → c.key.parents = [p] → Unfolds D p q →
      c.operation.query [q] = some q' → Unfolds D id q'
  | binary {id l r c q q' q''} : D id = some c → c.key.parents = [l, r] → Unfolds D l q →
      Unfolds D r q' → c.operation.query [q, q'] = some q'' → Unfolds D id q''

namespace Unfolds

variable {D D' : Declared V} {id : DeclId} {q q' : Query V}

theorem kept (h : Unfolds D id q) (hd : D.Extends D') : Unfolds D' id q := by
  induction h with
  | leaf hc hp hq => exact .leaf (hd _ _ hc) hp hq
  | unary hc hp _ hq ih => exact .unary (hd _ _ hc) hp ih hq
  | binary hc hp _ _ hq ih ih' => exact .binary (hd _ _ hc) hp ih ih' hq

theorem of_parents {c : Candidate V} {qs : List (Query V)} (hc : D id = some c)
    (hqs : List.Forall₂ (Unfolds D) c.key.parents qs) (hq : c.operation.query qs = some q) :
    Unfolds D id q := by
  generalize hps : c.key.parents = ps at hqs
  cases hqs with
  | nil => exact .leaf hc hps hq
  | cons h hrest =>
      cases hrest with
      | nil => exact .unary hc hps h hq
      | cons h' hrest =>
          cases hrest with
          | nil => exact .binary hc hps h h' hq
          | cons _ _ =>
              unfold Operation.query at hq
              split at hq <;> simp_all

theorem exists_parents (h : Unfolds D id q) : ∃ c qs, D id = some c ∧
    List.Forall₂ (Unfolds D) c.key.parents qs ∧ c.operation.query qs = some q := by
  cases h with
  | leaf hc hp hq => exact ⟨_, _, hc, hp ▸ .nil, hq⟩
  | unary hc hp h hq => exact ⟨_, _, hc, hp ▸ .cons h .nil, hq⟩
  | binary hc hp h h' hq => exact ⟨_, _, hc, hp ▸ .cons h (.cons h' .nil), hq⟩

/-- A declaration computes one query only. -/
theorem unique (h : Unfolds D id q) (h' : Unfolds D id q') : q = q' := by
  induction h generalizing q' with
  | leaf hc hp hq =>
      obtain ⟨c', qs, hc', hqs, hq'⟩ := h'.exists_parents
      obtain rfl := Option.some.inj (hc.symm.trans hc')
      rw [hp] at hqs
      obtain rfl := List.forall₂_nil_left_iff.mp hqs
      exact Option.some.inj (hq.symm.trans hq')
  | unary hc hp _ hq ih =>
      obtain ⟨c', qs, hc', hqs, hq'⟩ := h'.exists_parents
      obtain rfl := Option.some.inj (hc.symm.trans hc')
      rw [hp] at hqs
      obtain _ | ⟨hu, ⟨⟩⟩ := hqs
      rw [ih hu] at hq
      exact Option.some.inj (hq.symm.trans hq')
  | binary hc hp _ _ hq ih ih' =>
      obtain ⟨c', qs, hc', hqs, hq'⟩ := h'.exists_parents
      obtain rfl := Option.some.inj (hc.symm.trans hc')
      rw [hp] at hqs
      obtain _ | ⟨hl, _ | ⟨hr, ⟨⟩⟩⟩ := hqs
      rw [ih hl, ih' hr] at hq
      exact Option.some.inj (hq.symm.trans hq')

end Unfolds

/-- Every declaration of a well-formed graph computes a query. -/
theorem Formed.unfolds {ds : Array (Declaration V)} (h : Formed ds) (id : DeclId)
    (hid : id < ds.size) : ∃ q, Unfolds (declaredIn ds) id q := by
  induction id using Nat.strongRecOn with
  | _ id ih =>
      obtain ⟨c, hc⟩ := Option.isSome_iff_exists.mp (isSome_declaredIn.mpr hid)
      have hparent : ∀ p ∈ c.key.parents, ∃ q, Unfolds (declaredIn ds) p q := fun p hp =>
        have hlt := h.parents_lt id c hc p hp
        ih p hlt (Nat.lt_trans hlt hid)
      have hshape := h.shape id c hc
      have hone : ∀ p, c.key.parents = [p] → (∀ q, ∃ q', c.operation.query [q] = some q') →
          ∃ q, Unfolds (declaredIn ds) id q := by
        intro p hp hop
        obtain ⟨q, hq⟩ := hparent p (hp ▸ List.mem_singleton_self p)
        obtain ⟨q', hq'⟩ := hop q
        exact ⟨q', .unary hc hp hq hq'⟩
      have htwo : ∀ l r, c.key.parents = [l, r] →
          (∀ q q', ∃ q'', c.operation.query [q, q'] = some q'') →
          ∃ q, Unfolds (declaredIn ds) id q := by
        intro l r hp hop
        obtain ⟨q, hq⟩ := hparent l (hp ▸ List.mem_cons_self)
        obtain ⟨q', hq'⟩ := hparent r (hp ▸ List.mem_cons_of_mem l (List.mem_singleton_self r))
        obtain ⟨q'', hq''⟩ := hop q q'
        exact ⟨q'', .binary hc hp hq hq' hq''⟩
      cases hop : c.operation with
      | source type b =>
          rw [hop] at hshape
          exact ⟨_, .leaf hc hshape.1 (by rw [hop]; rfl)⟩
      | foreBridge _ | aftBridge | filter _ | score _ | map _ | flattenLast _ | group _ _ =>
          rw [hop] at hshape
          obtain ⟨p, hp, -⟩ := hshape
          exact hone p hp fun q => by rw [hop]; exact ⟨_, rfl⟩
      | join _ | «exists» _ _ | concat =>
          rw [hop] at hshape
          obtain ⟨l, r, hp, -⟩ := hshape
          exact htwo l r hp fun q q' => by rw [hop]; exact ⟨_, rfl⟩

end ConstraintScoring
