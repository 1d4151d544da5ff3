import ConstraintScoring.Network.Basic
import ConstraintScoring.Proofs.Node.Exists
import ConstraintScoring.Proofs.Node.Group
import ConstraintScoring.Proofs.Node.Score
import ConstraintScoring.Proofs.Node.Single
import ConstraintScoring.Proofs.Node.Source

/-!
# Nodes of every kind

What the nodes of all kinds have in common: outputs, books that agree with what the node has heard,
the faults that may stop it, and rows of one width. Hearing of an event keeps all of this up.
-/

namespace ConstraintScoring.NodeKind

variable {V S : Type}

/-- The tuples that a node refers to as its outputs. -/
def outputIds : NodeKind V S → List TupleId
  | source n => n.outputs.values
  | filter n => n.outputs.values
  | map n => n.outputs.values
  | flatten n => n.outputIds
  | concat n => n.outputs.values
  | join n => n.outputIds
  | «exists» n => n.outputIds
  | group n => n.outputIds
  | foreBridge _ | aftBridge | score _ => []

/-- The kind of step that a node takes. -/
def opKind : NodeKind V S → OpKind
  | source _ => .source
  | foreBridge _ => .foreBridge
  | aftBridge => .aftBridge
  | filter _ => .filter
  | map _ => .map
  | flatten _ => .flattenLast
  | concat _ => .concat
  | join _ => .join
  | «exists» _ => .exists
  | group _ => .group
  | score _ => .score

theorem exists_source {k : NodeKind V S} (h : k.opKind = .source) : ∃ n, k = .source n := by
  cases k <;> first | exact ⟨_, rfl⟩ | cases h

/-- The node as it was before it heard of anything. -/
def blank : NodeKind V S → NodeKind V S
  | source n => source { n with outputs := .empty }
  | filter n => filter (.new n.accepts)
  | map n => map (.new n.columns)
  | flatten n => flatten (.new n.expand)
  | concat _ => concat .new
  | join n => join ⟨n.indexer, .empty, .empty, .empty, .empty⟩
  | «exists» n => .exists ⟨n.shouldExist, n.indexer, .empty, .empty, .empty, .empty⟩
  | group n => group ⟨n.keys, n.collectors, .empty, .empty, []⟩
  | score n => score { n with impacts := .empty }
  | kind => kind

/-- Whether a node hears of its inputs on one side only, the left one. -/
def isSingle : NodeKind V S → Bool
  | filter _ | map _ | flatten _ | group _ | score _ => true
  | _ => false

/-- Whether a node hears of the tuples of others at all. -/
def isReader : NodeKind V S → Bool
  | source _ | foreBridge _ | aftBridge => false
  | _ => true

/-- The width of a node's rows, given that of its inputs. -/
def Shapes (widthOf : Side → Nat) (w : Nat) : NodeKind V S → Prop
  | source _ => w = 1
  | map n => w = n.columns.length
  | flatten n => w = widthOf .left ∧ ∀ row items, n.expand row = .ok items → row ≠ []
  | concat _ => w = widthOf .left ∧ w = widthOf .right
  | join _ => w = widthOf .left + widthOf .right
  | group n => w = n.keys.length + n.collectors.length
  | filter _ | «exists» _ | foreBridge _ | aftBridge | score _ => w = widthOf .left

section

variable {k k' : NodeKind V S} {widthOf : Side → Nat} {w : Nat}

theorem isReader_blank (k : NodeKind V S) : k.blank.isReader = k.isReader := by cases k <;> rfl

theorem isSingle_blank (k : NodeKind V S) : k.blank.isSingle = k.isSingle := by cases k <;> rfl

theorem shapes_blank : k.blank.Shapes widthOf w ↔ k.Shapes widthOf w := by cases k <;> rfl

theorem isBridge_blank (k : NodeKind V S) : k.blank.isBridge = k.isBridge := by cases k <;> rfl

theorem isBridge_of_isReader (h : k.isReader) : k.isBridge = false := by
  cases k <;> first | rfl | cases h

end

variable [Cell V] [Std.TransOrd V] [Score S]

def Books (h : Hearing) (ρ : TupleId → Row V) : NodeKind V S → Prop
  | filter n => n.Books h ρ
  | map n => n.Books h ρ
  | flatten n => n.Books h ρ
  | concat n => n.Books h ρ
  | join n => n.Books h ρ
  | «exists» n => n.Books h ρ
  | group n => n.Books h ρ
  | score n => n.Books h ρ
  | source _ | foreBridge _ | aftBridge => True

/-- The faults that may stop a node: those of its user functions, and numbers that leave their
range. -/
def Raises (f : Fault) : NodeKind V S → Prop
  | source n => ∃ fact, n.accepts fact = .error f
  | filter n => n.Raises f
  | map n => n.Raises f
  | flatten n => n.Raises f
  | join n => n.indexer.Raises f
  | «exists» n => n.indexer.Raises f
  | group n => n.Raises f
  | score n => n.Raises f
  | foreBridge _ | aftBridge | concat _ => False

/-- What stops a node when it hears of an event: a user function fails on the row of the tuple, or on
it and a row that is kept under an equal key, or a number leaves its range. -/
def Trips (side : Side) (e : Event) (ρ : TupleId → Row V) (t : TupleId) (f : Fault) :
    NodeKind V S → Prop
  | filter n => e ≠ .retract ∧ n.accepts (ρ t) = .error f
  | map n => e ≠ .retract ∧ n.image (ρ t) = .error f
  | flatten n => e ≠ .retract ∧ n.images (ρ t) = .error f
  | join n => e ≠ .retract ∧ n.indexer.FailsOn (n.opposite side) side ρ t f
  | «exists» n => e ≠ .retract ∧ n.indexer.FailsOn (n.opposite side) side ρ t f
  | group n => n.Trips e (ρ t) f
  | score n => n.Trips e (ρ t) f
  | source _ | foreBridge _ | aftBridge | concat _ => False

variable {k k' : NodeKind V S} {h h' : Hearing} {ρ ρ' : TupleId → Row V} {s : Staging V}
  {side : Side} {e : Event} {t : TupleId} {widthOf : Side → Nat} {w : Nat} {f : Fault}

omit [Std.TransOrd V] in
theorem Trips.raises (h : k.Trips side e ρ t f) : k.Raises f := by
  cases k with
  | filter n | map n | flatten n => exact ⟨ρ t, h.2⟩
  | join n | «exists» n => exact JoinIndexer.FailsOn.raises h.2
  | group n => exact GroupNode.Trips.raises h
  | score n => exact ScoreNode.Trips.raises h
  | source n | foreBridge side | aftBridge | concat n => exact False.elim h

/-- Rows of outputs stay, and an input whose row changes is no longer fresh. -/
theorem Books.frame (hb : k.Books h ρ) (hknown : ∀ σ t, h.known σ t ↔ h'.known σ t)
    (hfresh : ∀ σ t, h'.fresh σ t → h.fresh σ t ∧ ρ' t = ρ t)
    (houts : ∀ x ∈ k.outputIds, ρ' x = ρ x) : k.Books h' ρ' := by
  have hsame : h'.known = h.known := funext₂ fun σ t => propext (hknown σ t).symm
  cases k with
  | filter n =>
      change SingleImages n.outputs id (h'.known .left) _ _ _
      rw [hsame]
      exact SingleImages.frame hb houts (hfresh .left)
  | map n =>
      change SingleImages n.outputs id (h'.known .left) _ _ _
      rw [hsame]
      exact SingleImages.frame hb houts (hfresh .left)
  | flatten n =>
      have hb : n.Books h ρ := hb
      refine ⟨hb.distinct, ?_⟩
      rw [hsame]
      refine hb.images.frame (fun t x hx => houts x ?_) (hfresh .left)
      exact (n.outputIds_perm t).mem_iff.mpr (List.mem_append_left _ hx)
  | concat n =>
      change SingleImages n.outputs (·.2) (fun k => h'.known k.1 k.2) _ _ _
      rw [hsame]
      exact SingleImages.frame hb houts fun k => hfresh k.1 k.2
  | join n => exact JoinNode.Books.frame hb hknown hfresh houts
  | «exists» n => exact ExistsNode.Books.frame hb hknown hfresh houts
  | group n => exact GroupNode.Books.frame hb (hknown .left) (hfresh .left) houts
  | score n => exact ScoreNode.Books.frame hb (hknown .left) (hfresh .left)
  | source n => trivial
  | foreBridge side => trivial
  | aftBridge => trivial

/-- The books of a node that has heard of nothing. -/
theorem books_of_blank (hk : k.blank = k) (hknown : ∀ σ t, ¬h.known σ t) : k.Books h ρ := by
  have hfresh : ∀ σ t, ¬h.fresh σ t := fun σ t ht => hknown σ t (h.known_of_fresh σ t ht)
  rw [← hk]
  cases k with
  | filter n => exact .unheard (hfresh .left)
  | map n => exact .unheard (hfresh .left)
  | flatten n => exact ⟨Table.distinct_empty, .unheard (hfresh .left)⟩
  | concat n => exact .unheard fun k => hfresh k.1 k.2
  | join n => exact JoinNode.books_new n.indexer hknown
  | «exists» n => exact ExistsNode.books_new n.shouldExist n.indexer hknown
  | group n => exact GroupNode.books_new n.keys n.collectors (hknown .left)
  | score n =>
      refine ⟨Table.distinct_empty, fun t => ?_, fun t ht => absurd ht (hfresh .left t)⟩
      exact iff_of_false (fun ⟨_, hx⟩ => by simp at hx) (hknown .left t)
  | source n => trivial
  | foreBridge side => trivial
  | aftBridge => trivial

/-- What hearing of an event leads to. -/
structure Heard (w : Nat) (k : NodeKind V S) (s : Staging V) (h : Hearing) (k' : NodeKind V S)
    (s' : Staging V) : Prop where
  work : Staging.Work (·.length = w) s k.outputIds s' k'.outputIds
  books : k'.Books h s'.arena.row
  blank : k'.blank = k.blank

/-- A node that hears of an event keeps its books and is stopped by nothing but what it evaluates. -/
theorem onEvent_ensures (hb : k.Books h s.arena.row) (he : h.Expects side e t)
    (hside : k.isSingle → side = .left) (hc : s.Clear k.outputIds (h.inputs side t))
    (hs : k.Shapes widthOf w)
    (hin : ∀ σ x, h.Input side t σ x → (s.arena.row x).length = widthOf σ)
    (hscore : ∀ n, k ≠ .score n) (hreader : k.isReader) :
    (k.onEvent side e t).Ensures s (k.Heard w s (h.hear side e t))
      (k.Trips side e s.arena.row t ·) := by
  have hself := hin side t (Or.inl ⟨rfl, rfl⟩)
  cases k with
  | filter n =>
      obtain rfl := hside rfl
      refine .of_bind ((FilterNode.onEvent_ensures (W := (·.length = w)) hb hc
        (hself.trans hs.symm)).mono (fun n' s' hn' => .of_pure ?_) fun _ hf => hf)
      obtain ⟨work, hb', haccepts⟩ := hn'
      exact ⟨work, hb', by rw [blank, blank, haccepts]⟩
  | map n =>
      obtain rfl := hside rfl
      refine .of_bind ((MapNode.onEvent_ensures (W := (·.length = w)) hb he hc ?_).mono
        (fun n' s' hn' => .of_pure ?_) fun _ hf => hf)
      · intro row hrow
        rw [← (Outcome.mapM_eq_ok.mp hrow).length_eq, hs]
      · obtain ⟨work, hb', hcolumns⟩ := hn'
        exact ⟨work, hb', by rw [blank, blank, hcolumns]⟩
  | flatten n =>
      obtain rfl := hside rfl
      refine .of_bind ((FlattenNode.onEvent_ensures (W := (·.length = w)) hb hc ?_).mono
        (fun n' s' hn' => .of_pure ?_) fun _ hf => hf)
      · intro rows hrows row hrow
        obtain ⟨items, hitems, hrows⟩ := Outcome.bind_eq_ok.mp hrows
        obtain rfl := Except.ok.inj hrows
        obtain ⟨item, -, rfl⟩ := List.mem_map.mp hrow
        have hpos := List.length_pos_iff.mpr (hs.2 _ _ hitems)
        rw [List.length_append, List.length_dropLast, List.length_singleton, hs.1, ← hself]
        exact Nat.sub_add_cancel hpos
      · obtain ⟨work, hb', hexpand⟩ := hn'
        exact ⟨work, hb', by rw [blank, blank, hexpand]⟩
  | concat n =>
      have hW : (s.arena.row t).length = w := by
        rw [hself]
        cases side with
        | left => exact hs.1.symm
        | right => exact hs.2.symm
      refine .of_bind ((ConcatNode.onEvent_ensures (W := (·.length = w)) hb he hc hW).mono
        (fun n' s' hn' => .of_pure ?_) fun _ hf => hf)
      exact ⟨hn'.1, hn'.2, rfl⟩
  | join n =>
      refine .of_bind ((JoinNode.onEvent_ensures (W := (·.length = w)) hb he hc ?_).mono
        (fun n' s' hn' => .of_pure ?_) fun _ hf => hf)
      · intro l r hl hr
        rw [List.length_append, hin .left l hl, hin .right r hr, hs]
      · obtain ⟨work, hb', hindexer⟩ := hn'
        exact ⟨work, hb', by rw [blank, blank, hindexer]⟩
  | «exists» n =>
      refine .of_bind ((ExistsNode.onEvent_ensures (W := (·.length = w)) hb he hc ?_).mono
        (fun n' s' hn' => .of_pure ?_) fun _ hf => hf)
      · intro l hl
        rw [hin .left l hl, hs]
      · obtain ⟨work, hb', hindexer, hexist⟩ := hn'
        exact ⟨work, hb', by rw [blank, blank, hindexer, hexist]⟩
  | group n =>
      obtain rfl := hside rfl
      refine .of_bind ((GroupNode.onEvent_ensures (W := (·.length = w)) hb he hc ?_).mono
        (fun n' s' hn' => .of_pure ?_) fun _ hf => hf)
      · exact fun row hrow => hrow.trans hs.symm
      · obtain ⟨work, hb', halike⟩ := hn'
        exact ⟨work, hb', by rw [blank, blank, halike.keys, halike.collectors]⟩
  | score n => exact absurd rfl (hscore n)
  | source n => cases hreader
  | foreBridge side => cases hreader
  | aftBridge => cases hreader

end ConstraintScoring.NodeKind
