import ConstraintScoring.Graph.Builder

/-!
# Well-formed declarations

Each declaration names its parents, which came before it, and has the width that its operation
gives to rows of its parents. Steps with two inputs take them through fore bridges, one for each
side, and all others take theirs directly.
-/

namespace ConstraintScoring

-- The sum of no numbers is the zero of the core library, whatever else is imported.
attribute [local instance (2000)] Zero.ofOfNat0

variable {V S : Type}

namespace Operation

def kind : Operation V → OpKind
  | source _ _ => .source
  | foreBridge _ => .foreBridge
  | aftBridge => .aftBridge
  | filter _ => .filter
  | join _ => .join
  | «exists» _ _ => .exists
  | group _ _ => .group
  | map _ => .map
  | flattenLast _ => .flattenLast
  | concat => .concat
  | score _ => .score

/-- Whether a stream may be made of the operation's rows. -/
def isOpen (op : Operation V) : Bool := op.kind != .foreBridge && op.kind != .score

end Operation

/-- Whether steps of the kind hand their rows on through an aft bridge. -/
def OpKind.isBridged : OpKind → Bool
  | join | «exists» | group | map | flattenLast | concat => true
  | _ => false

namespace Operation

theorem isOpen_of_isBridged {op : Operation V} (h : op.kind.isBridged) : op.isOpen := by
  cases op <;> first | rfl | cases h

end Operation

/-- A declaration without its place in the graph. -/
def Declaration.candidate (d : Declaration V) : Candidate V := ⟨d.key, d.operation, d.width⟩

/-- What was declared under each number. -/
abbrev Declared (V : Type) := DeclId → Option (Candidate V)

def declaredIn (ds : Array (Declaration V)) : Declared V := fun id => ds[id]?.map (·.candidate)

namespace Declared

variable (D : Declared V)

def Fore (id : DeclId) (side : Side) : Prop := ∃ c, D id = some c ∧ c.operation = .foreBridge side

/-- A declaration that is neither a fore bridge nor the end of a stream. -/
def Plain (id : DeclId) : Prop := ∃ c, D id = some c ∧ c.operation.isOpen

def width (id : DeclId) : Nat := (D id).elim 0 (·.width)

/-- The parents and the width of a declaration with the given operation. -/
def Shape (parents : List DeclId) (w : Nat) : Operation V → Prop
  | .source _ _ => parents = [] ∧ w = 1
  | .foreBridge _ | .aftBridge | .filter _ | .score _ =>
      ∃ p, parents = [p] ∧ D.Plain p ∧ w = D.width p
  | .map columns => ∃ p, parents = [p] ∧ D.Plain p ∧ w = columns.length
  | .flattenLast expand => ∃ p, parents = [p] ∧ D.Plain p ∧ w = D.width p ∧
      ∀ row items, expand row = .ok items → row ≠ []
  | .group keys collectors => ∃ p, parents = [p] ∧ D.Plain p ∧ w = keys.length + collectors.length
  | .join _ => ∃ l r, parents = [l, r] ∧ D.Fore l .left ∧ D.Fore r .right ∧
      w = D.width l + D.width r
  | .exists _ _ => ∃ l r, parents = [l, r] ∧ D.Fore l .left ∧ D.Fore r .right ∧ w = D.width l
  | .concat => ∃ l r, parents = [l, r] ∧ D.Fore l .left ∧ D.Fore r .right ∧ w = D.width l ∧
      w = D.width r

/-- The width of rows, as far as a key tells it. -/
def keyWidth (key : DeclarationKey) : Nat :=
  match key.kind with
  | .source => 1
  | .map => key.params.length
  | .group => key.params.countP fun p => p = .label "key" ∨ p = .label "collector"
  | .join => (key.parents.map D.width).sum
  | _ => ((key.parents.map D.width).head?).getD 0

/-- What was declared before is still there. -/
def Extends (D' : Declared V) : Prop := ∀ id c, D id = some c → D' id = some c

variable {D} {D' D'' : Declared V} {id : DeclId} {side : Side} {parents : List DeclId} {w : Nat}
  {op : Operation V} {key : DeclarationKey}

theorem Extends.refl (D : Declared V) : D.Extends D := fun _ _ h => h

theorem Extends.trans (h : D.Extends D') (h' : D'.Extends D'') : D.Extends D'' :=
  fun id c hc => h' id c (h id c hc)

namespace Extends

theorem fore (h : D.Extends D') (hf : D.Fore id side) : D'.Fore id side := by
  obtain ⟨c, hc, ho⟩ := hf
  exact ⟨c, h id c hc, ho⟩

theorem plain (h : D.Extends D') (hp : D.Plain id) : D'.Plain id := by
  obtain ⟨c, hc, ho⟩ := hp
  exact ⟨c, h id c hc, ho⟩

theorem width (h : D.Extends D') (hc : (D id).isSome) : D'.width id = D.width id := by
  obtain ⟨c, hc⟩ := Option.isSome_iff_exists.mp hc
  unfold Declared.width
  rw [hc, h id c hc]

end Extends

theorem Fore.isSome (h : D.Fore id side) : (D id).isSome := by
  obtain ⟨c, hc, -⟩ := h
  rw [hc]
  rfl

theorem Plain.isSome (h : D.Plain id) : (D id).isSome := by
  obtain ⟨c, hc, -⟩ := h
  rw [hc]
  rfl

theorem Shape.kept (hs : D.Shape parents w op) (h : D.Extends D') : D'.Shape parents w op := by
  cases op with
  | source type b => exact hs
  | foreBridge side | aftBridge | filter f | score c =>
      obtain ⟨p, hp, hplain, hw⟩ := hs
      exact ⟨p, hp, h.plain hplain, hw.trans (h.width hplain.isSome).symm⟩
  | map columns | group keys collectors =>
      obtain ⟨p, hp, hplain, hw⟩ := hs
      exact ⟨p, hp, h.plain hplain, hw⟩
  | flattenLast expand =>
      obtain ⟨p, hp, hplain, hw, hexpand⟩ := hs
      exact ⟨p, hp, h.plain hplain, hw.trans (h.width hplain.isSome).symm, hexpand⟩
  | join indexer =>
      obtain ⟨l, r, hp, hl, hr, hw⟩ := hs
      refine ⟨l, r, hp, h.fore hl, h.fore hr, ?_⟩
      rw [hw, h.width hl.isSome, h.width hr.isSome]
  | «exists» b indexer =>
      obtain ⟨l, r, hp, hl, hr, hw⟩ := hs
      exact ⟨l, r, hp, h.fore hl, h.fore hr, hw.trans (h.width hl.isSome).symm⟩
  | concat =>
      obtain ⟨l, r, hp, hl, hr, hwl, hwr⟩ := hs
      exact ⟨l, r, hp, h.fore hl, h.fore hr, hwl.trans (h.width hl.isSome).symm,
        hwr.trans (h.width hr.isSome).symm⟩

theorem keyWidth_kept (h : D.Extends D') (hp : ∀ p ∈ key.parents, (D p).isSome) :
    D'.keyWidth key = D.keyWidth key := by
  have hparents : key.parents.map D'.width = key.parents.map D.width :=
    List.map_congr_left fun p hmem => h.width (hp p hmem)
  unfold keyWidth
  rw [hparents]

end Declared

/-- A declaration has no parents, one that is not a fore bridge, or a fore bridge for each side. -/
theorem Declared.Shape.parents {D : Declared V} {ps : List DeclId} {w : Nat} {op : Operation V}
    (h : D.Shape ps w op) : ps = [] ∧ (∃ type b, op = .source type b) ∨
    (∃ p, ps = [p] ∧ D.Plain p) ∨ ∃ l r, ps = [l, r] ∧ D.Fore l .left ∧ D.Fore r .right := by
  cases op with
  | source type b => exact Or.inl ⟨h.1, type, b, rfl⟩
  | foreBridge _ | aftBridge | filter _ | score _ | map _ | flattenLast _ | group _ _ =>
      obtain ⟨p, hp, hplain, -⟩ := h
      exact Or.inr (Or.inl ⟨p, hp, hplain⟩)
  | join _ | «exists» _ _ | concat =>
      obtain ⟨l, r, hp, hl, hr, -⟩ := h
      exact Or.inr (Or.inr ⟨l, r, hp, hl, hr⟩)

theorem Declared.Shape.isSome_parent {D : Declared V} {ps : List DeclId} {w : Nat}
    {op : Operation V} (h : D.Shape ps w op) {p : DeclId} (hp : p ∈ ps) : (D p).isSome := by
  rcases h.parents with ⟨rfl, -⟩ | ⟨q, rfl, hq⟩ | ⟨l, r, rfl, hl, hr⟩
  · cases hp
  · exact List.mem_singleton.mp hp ▸ hq.isSome
  · rw [List.mem_cons, List.mem_singleton] at hp
    rcases hp with rfl | rfl
    · exact hl.isSome
    · exact hr.isSome

/-- No declaration has a parent twice; the fore bridges of two inputs are for different sides. -/
theorem Declared.Shape.nodup_parents {D : Declared V} {ps : List DeclId} {w : Nat}
    {op : Operation V} (h : D.Shape ps w op) : ps.Nodup := by
  rcases h.parents with ⟨rfl, -⟩ | ⟨q, rfl, -⟩ | ⟨l, r, rfl, ⟨c, hc, hl⟩, d, hd, hr⟩
  · exact List.nodup_nil
  · exact List.nodup_cons.mpr ⟨List.not_mem_nil, List.nodup_nil⟩
  · refine List.nodup_cons.mpr ⟨fun hmem => ?_,
      List.nodup_cons.mpr ⟨List.not_mem_nil, List.nodup_nil⟩⟩
    rw [List.mem_singleton.mp hmem] at hc
    rw [Option.some.inj (hc.symm.trans hd), hr] at hl
    cases hl

/-- A well-formed list of declarations. -/
structure Formed (ds : Array (Declaration V)) : Prop where
  parents_lt : ∀ id c, declaredIn ds id = some c → ∀ p ∈ c.key.parents, p < id
  shape : ∀ id c, declaredIn ds id = some c →
    (declaredIn ds).Shape c.key.parents c.width c.operation
  children_nodup : ∀ (p : DeclId) d, ds[p]? = some d → d.children.Nodup
  mem_children : ∀ (p : DeclId) d, ds[p]? = some d → ∀ id, id ∈ d.children ↔
    ∃ c, declaredIn ds id = some c ∧ p ∈ c.key.parents

theorem declaredIn_eq_some {ds : Array (Declaration V)} {id : DeclId} {c : Candidate V} :
    declaredIn ds id = some c ↔ ∃ d, ds[id]? = some d ∧ d.candidate = c :=
  Option.map_eq_some_iff

theorem lt_of_declaredIn {ds : Array (Declaration V)} {id : DeclId} {c : Candidate V}
    (h : declaredIn ds id = some c) : id < ds.size := by
  obtain ⟨d, hd, -⟩ := declaredIn_eq_some.mp h
  exact (Array.getElem?_eq_some_iff.mp hd).1

/-- The end of a stream is nobody's parent. -/
theorem Formed.ne_score {ds : Array (Declaration V)} {id p : DeclId} {c d : Candidate V}
    (h : Formed ds) (hd : declaredIn ds id = some d) (hp : p ∈ d.key.parents)
    (hc : declaredIn ds p = some c) (i : Nat) : c.operation ≠ .score i := by
  intro hop
  have hplain : ¬(declaredIn ds).Plain p := by
    rintro ⟨c', hc', hopen⟩
    obtain rfl := Option.some.inj (hc.symm.trans hc')
    rw [hop] at hopen
    cases hopen
  have hfore : ∀ side, ¬(declaredIn ds).Fore p side := by
    rintro side ⟨c', hc', hside⟩
    obtain rfl := Option.some.inj (hc.symm.trans hc')
    rw [hop] at hside
    cases hside
  rcases (h.shape id d hd).parents with ⟨hnil, -⟩ | ⟨P, hP, hPlain⟩ | ⟨l, r, hlr, hl, hr⟩
  · rw [hnil] at hp
    cases hp
  · rw [hP, List.mem_singleton] at hp
    exact hplain (hp ▸ hPlain)
  · rw [hlr, List.mem_cons, List.mem_singleton] at hp
    rcases hp with hp | hp
    · exact hfore .left (hp ▸ hl)
    · exact hfore .right (hp ▸ hr)

theorem isSome_declaredIn {ds : Array (Declaration V)} {id : DeclId} :
    (declaredIn ds id).isSome ↔ id < ds.size := by
  unfold declaredIn
  simp

end ConstraintScoring
