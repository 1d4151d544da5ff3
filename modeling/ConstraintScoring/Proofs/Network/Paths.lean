import ConstraintScoring.Proofs.Network.Layout

/-!
# Paths of bridges

A reader hears of the tuples of a node once along each path of bridges that leads to it, on the side
that the last fore bridge of the path says.
-/

namespace ConstraintScoring.Network

variable {V S : Type}

/-- The bridges on the way from a node to another one, which is the last of them or the node. -/
inductive Chain (net : Network V S) (p : NodeId) : List NodeId → NodeId → Prop where
  | nil : Chain net p [] p
  | snoc {path q e} : Chain net p path q → net.Below q e → net.IsBridge e →
      Chain net p (path ++ [e]) e

/-- A path of bridges from a node to a reader, which is none of them. -/
def Path (net : Network V S) (p : NodeId) (path : List NodeId) (reader : NodeId) : Prop :=
  ∃ e, Chain net p path e ∧ net.Below e reader ∧ ¬net.IsBridge reader

/-- The side that a node changes to, if it is a fore bridge. -/
def foreSide? (net : Network V S) (id : NodeId) : Option Side :=
  match net.kindAt id with
  | .foreBridge side => some side
  | _ => none

/-- The side of the last fore bridge on a path. -/
def sideAlong (net : Network V S) (path : List NodeId) : Side :=
  (path.reverse.findSome? net.foreSide?).getD .left

section

variable {net : Network V S} {p q e c : NodeId} {path path' : List NodeId}

theorem outward_eq (net : Network V S) (id : NodeId) :
    net.outward id = (net.foreSide? id).getD .left := by
  unfold outward foreSide?
  cases net.kindAt id <;> rfl

theorem Chain.behind (h : Chain net p path e) : net.Behind p e := by
  induction h with
  | nil => exact .refl
  | snoc _ hqe he ih => exact .step ih hqe he

theorem Behind.chain (h : net.Behind p e) : ∃ path, Chain net p path e := by
  induction h with
  | refl => exact ⟨[], .nil⟩
  | step _ hqe he ih =>
      obtain ⟨path, hpath⟩ := ih
      exact ⟨_, .snoc hpath hqe he⟩

theorem Chain.last (h : Chain net p path e) : path = [] ∧ e = p ∨
    ∃ init q, path = init ++ [e] ∧ Chain net p init q ∧ net.Below q e ∧ net.IsBridge e := by
  cases h with
  | nil => exact Or.inl ⟨rfl, rfl⟩
  | snoc hq hqe he => exact Or.inr ⟨_, _, rfl, hq, hqe, he⟩

/-- No node lies behind itself. -/
theorem Chain.not_below (h : Chain net p path q) (hl : net.Laid) : ¬net.Below q p := fun hqp =>
  absurd (Nat.lt_of_le_of_lt (h.behind.le hl) (hl.lt q p hqp)) (Nat.lt_irrefl p)

/-- There is one way to a node only. -/
theorem Chain.unique (h : Chain net p path e) (h' : Chain net p path' e) (hl : net.Laid) :
    path = path' := by
  induction h generalizing path' with
  | nil =>
      rcases h'.last with ⟨rfl, -⟩ | ⟨init, q, -, hq, hqp, -⟩
      · rfl
      · exact absurd hqp (hq.not_below hl)
  | snoc hq hqe he ih =>
      rcases h'.last with ⟨-, rfl⟩ | ⟨init, q', rfl, hq', hqe', -⟩
      · exact absurd hqe (hq.not_below hl)
      · obtain rfl := hl.parent _ _ _ he hqe hqe'
        rw [ih hq']

namespace Compiled

variable [Score S] {g : DeclarationGraph V S} {domain : DomainModel V} {r : Route}

/-- Nothing but readers lies behind a fore bridge. -/
theorem not_fore (h : Compiled g domain net) (hf : Formed g.declarations) (hqe : net.Below q e)
    (he : net.IsBridge e) : net.foreSide? q = none := by
  obtain ⟨a, b, d, ha, hb, hd, hmem⟩ := h.of_below hf hqe
  have hshape := hf.shape b.decl d hd
  have hplain : (declaredIn g.declarations).Plain a.decl := by
    rcases (h.isBridge_iff hb hd).mp he with ⟨side, hop⟩ | hop <;> rw [hop] at hshape <;>
      obtain ⟨P, hP, hplain, -⟩ := hshape <;> rw [hP, List.mem_singleton] at hmem <;>
      exact hmem ▸ hplain
  obtain ⟨c, hc, hopen⟩ := hplain
  obtain ⟨c', hc', hblank, -⟩ := h.candidate ha
  obtain rfl := Option.some.inj (hc.symm.trans hc')
  unfold foreSide?
  cases hop : c.operation with
  | foreBridge side =>
      rw [hop] at hopen
      cases hopen
  | source _ _ | score _ =>
      rw [hop] at hblank
      obtain ⟨_, -, hk⟩ := hblank
      rw [hk]
  | _ =>
      rw [hop] at hblank
      rw [show net.kindAt q = _ from hblank]

theorem chain_not_fore (h : Compiled g domain net) (hf : Formed g.declarations)
    (hpath : Chain net p path q) (hqe : net.Below q e) (he : net.IsBridge e) :
    ∀ x ∈ path, net.foreSide? x = none := by
  induction hpath generalizing e with
  | nil => exact fun x hx => absurd hx List.not_mem_nil
  | snoc _ hq'q hq ih =>
      intro x hx
      rcases List.mem_append.mp hx with hx | hx
      · exact ih hq'q hq x hx
      · rw [List.mem_singleton.mp hx]
        exact h.not_fore hf hqe he

/-- Events leave a path on the side of its last fore bridge. -/
theorem sideAlong_eq (h : Compiled g domain net) (hf : Formed g.declarations)
    (hpath : Chain net p path e) (hp : ¬net.IsBridge p) : net.sideAlong path = net.outward e := by
  rw [outward_eq]
  unfold sideAlong
  rcases hpath.last with ⟨rfl, rfl⟩ | ⟨init, q, rfl, hq, hqe, he⟩
  · unfold foreSide?
    cases hk : net.kindAt e with
    | foreBridge side =>
        unfold IsBridge at hp
        rw [hk] at hp
        exact absurd rfl hp
    | _ => rfl
  · have hinit : init.reverse.findSome? net.foreSide? = none :=
      List.findSome?_eq_none_iff.mpr fun x hx =>
        h.chain_not_fore hf hq hqe he x (List.mem_reverse.mp hx)
    rw [List.reverse_append, List.reverse_singleton, List.singleton_append, List.findSome?_cons]
    cases net.foreSide? e with
    | some side => rfl
    | none => exact congrArg (·.getD .left) hinit

/-- The routes of a node are the readers at the ends of its paths, with the side that the path
leaves on. -/
theorem mem_routesOf_iff (h : Compiled g domain net) (hf : Formed g.declarations)
    (hp : ¬net.IsBridge p) :
    r ∈ net.routesOf p ↔ ∃ path, net.Path p path r.node ∧ net.sideAlong path = r.side := by
  rw [(h.laid hf).mem_routesOf]
  constructor
  · rintro ⟨e, hpe, hec, hc, hside⟩
    obtain ⟨path, hpath⟩ := hpe.chain
    exact ⟨path, ⟨e, hpath, hec, hc⟩, (h.sideAlong_eq hf hpath hp).trans hside.symm⟩
  · rintro ⟨path, ⟨e, hpath, hec, hc⟩, hside⟩
    exact ⟨e, hpath.behind, hec, hc, hside.symm.trans (h.sideAlong_eq hf hpath hp)⟩

/-- Different paths to a reader leave on different sides. -/
theorem path_unique (h : Compiled g domain net) (hf : Formed g.declarations) (hp : ¬net.IsBridge p)
    (hpath : net.Path p path c) (hpath' : net.Path p path' c)
    (hside : net.sideAlong path = net.sideAlong path') : path = path' := by
  obtain ⟨e, hchain, hec, -⟩ := hpath
  obtain ⟨e', hchain', hec', -⟩ := hpath'
  rw [h.sideAlong_eq hf hchain hp, h.sideAlong_eq hf hchain' hp] at hside
  obtain rfl := (h.laid hf).feeder e e' c hec hec' hside
  exact hchain.unique hchain' (h.laid hf)

end Compiled

end

end ConstraintScoring.Network
