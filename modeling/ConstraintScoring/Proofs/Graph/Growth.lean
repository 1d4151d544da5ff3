import ConstraintScoring.Proofs.Graph.Naming
import ConstraintScoring.Proofs.Outcome
import ConstraintScoring.Proofs.Table.Distinct

/-!
# How a graph grows

Whatever is handed to the builder, what was declared before stays, and the graph stays well formed.
A step that is shared has the key it was asked for, and none of its functions is without a name.
-/

namespace ConstraintScoring

variable {V S : Type}

namespace GraphBuilder

def declared (g : GraphBuilder V S) : Declared V := declaredIn g.declarations

section Append

variable {g g' : GraphBuilder V S} {child parent id : DeclId} {c : Candidate V}

theorem attachChild_run {d : Declaration V} (hd : g.declarations[parent]? = some d)
    (hcanonical : g.canonical.get? d.key = some parent) (hnew : child ∉ d.children) :
    (attachChild child parent : Build V S Unit).run.run g =
      (.ok (), { g with declarations := g.declarations.modify parent (addChild child) }) := by
  unfold attachChild
  rw [Outcome.run_get_bind]
  simp only [hd]
  rw [if_neg (by simpa using hcanonical), if_neg (by simpa using hnew)]
  rfl

/-- The graph in which `child` was attached to the given parents. -/
structure Attached (g : GraphBuilder V S) (child : DeclId) (parents : List DeclId)
    (g' : GraphBuilder V S) : Prop where
  size : g'.declarations.size = g.declarations.size
  declarations : ∀ j : DeclId, g'.declarations[j]? =
    g.declarations[j]?.map fun d => if j ∈ parents then addChild child d else d
  canonical : g'.canonical = g.canonical
  constraints : g'.constraints = g.constraints
  nextFunction : g'.nextFunction = g.nextFunction

/-- A child can be attached to canonical declarations of which it is not a child yet. -/
theorem attachAll_run {parents : List DeclId} (hnodup : parents.Nodup)
    (hparents : ∀ p ∈ parents, ∃ d, g.declarations[p]? = some d ∧
      g.canonical.get? d.key = some p ∧ child ∉ d.children) :
    ∃ g', (parents.forM (attachChild child) : Build V S Unit).run.run g = (.ok (), g') ∧
      Attached g child parents g' := by
  induction parents generalizing g with
  | nil => exact ⟨g, rfl, rfl, fun j => by simp, rfl, rfl, rfl⟩
  | cons p ps ih =>
      obtain ⟨hps, hnodup⟩ := List.nodup_cons.mp hnodup
      obtain ⟨d, hd, hcanonical, hnew⟩ := hparents p List.mem_cons_self
      have hget : ∀ j : DeclId, (g.declarations.modify p (addChild child))[j]? =
          g.declarations[j]?.map fun d => if j = p then addChild child d else d := by
        intro j
        rw [Array.getElem?_modify]
        by_cases hj : j = p
        · subst hj
          simp
        · simp [hj, Ne.symm hj]
      -- The other parents are as they were.
      have hrest : ∀ q ∈ ps, ∃ d, (g.declarations.modify p (addChild child))[q]? = some d ∧
          g.canonical.get? d.key = some q ∧ child ∉ d.children := by
        intro q hq
        obtain ⟨e, he, hrest⟩ := hparents q (List.mem_cons_of_mem p hq)
        refine ⟨e, ?_, hrest⟩
        rw [hget, he, Option.map_some, if_neg]
        rintro rfl
        exact hps hq
      obtain ⟨g', hrun, hattached⟩ := ih
        (g := { g with declarations := g.declarations.modify p (addChild child) }) hnodup hrest
      refine ⟨g', Outcome.run_bind_eq_ok.mpr
        ⟨(), _, attachChild_run hd hcanonical hnew, hrun⟩, ?_⟩
      obtain ⟨hsize, hdecls, hcanonical, hconstraints, hnext⟩ := hattached
      refine ⟨hsize.trans Array.size_modify, fun j => ?_, hcanonical, hconstraints, hnext⟩
      rw [hdecls, hget, Option.map_map]
      congr 1
      funext d
      by_cases hj : j = p
      · subst hj
        simp [hps]
      · simp [hj]

/-- What appending a candidate leads to. -/
structure Appended (g : GraphBuilder V S) (c : Candidate V) (g' : GraphBuilder V S) : Prop where
  size : g'.declarations.size = g.size + 1
  parents_lt : ∀ p ∈ c.key.parents, p < g.size
  declared : g'.declared = Function.update g.declared g.size (some c)
  children : ∀ (j : DeclId) d', g'.declarations[j]? = some d' →
    j = g.size ∧ d'.candidate = c ∧ d'.children = [] ∧ d'.aftBridge = none ∨
    ∃ d, g.declarations[j]? = some d ∧ d'.candidate = d.candidate ∧ d'.aftBridge = d.aftBridge ∧
      d'.children = if j ∈ c.key.parents then d.children ++ [g.size] else d.children
  canonical : g'.canonical = g.canonical.insert c.key g.size
  constraints : g'.constraints = g.constraints
  nextFunction : g'.nextFunction = g.nextFunction

/-- The graph with a new declaration that its parents do not know of yet. -/
def pushed (g : GraphBuilder V S) (c : Candidate V) : GraphBuilder V S :=
  { g with
    declarations := g.declarations.push ⟨c.key, c.operation, c.width, [], none⟩
    canonical := g.canonical.insert c.key g.size }

theorem getElem?_pushed (j : DeclId) : (pushed g c).declarations[j]? =
    if j = g.size then some ⟨c.key, c.operation, c.width, [], none⟩ else g.declarations[j]? :=
  Array.getElem?_push

/-- A new declaration has been appended once its parents know of it. -/
theorem Attached.appended (h : Attached (pushed g c) g.size c.key.parents g')
    (hlt : ∀ p ∈ c.key.parents, p < g.size) : Appended g c g' := by
  obtain ⟨hsize, hdecls, hcanonical, hconstraints, hnext⟩ := h
  have hself : g.size ∉ c.key.parents := fun hmem => absurd (hlt _ hmem) (Nat.lt_irrefl _)
  have hget : ∀ j : DeclId, g'.declarations[j]? =
      if j = g.size then some ⟨c.key, c.operation, c.width, [], none⟩
      else g.declarations[j]?.map fun d =>
        if j ∈ c.key.parents then addChild g.size d else d := by
    intro j
    rw [hdecls, getElem?_pushed]
    by_cases hj : j = g.size
    · subst hj
      simp [hself]
    · rw [if_neg hj, if_neg hj]
  refine ⟨hsize.trans (Array.size_push _), hlt, funext fun j => ?_, fun j d' hd' => ?_, hcanonical,
    hconstraints, hnext⟩
  · unfold declared declaredIn
    rw [hget, Function.update_apply]
    split
    · rfl
    · rw [Option.map_map]
      congr 1
      funext d
      by_cases hmem : j ∈ c.key.parents <;> simp [hmem, addChild, Declaration.candidate]
  · rw [hget] at hd'
    split at hd'
    · rename_i hj
      obtain rfl := Option.some.inj hd'
      exact Or.inl ⟨hj, rfl, rfl, rfl⟩
    · obtain ⟨d, hd, rfl⟩ := Option.map_eq_some_iff.mp hd'
      refine Or.inr ⟨d, hd, ?_, ?_, ?_⟩ <;> by_cases hmem : j ∈ c.key.parents <;>
        simp [hmem, addChild, Declaration.candidate]

/-- A candidate can be appended below parents that are canonical and have no later children. -/
theorem append_run (hlt : ∀ p ∈ c.key.parents, p < g.size) (hnodup : c.key.parents.Nodup)
    (hnew : g.canonical.get? c.key = none)
    (hparents : ∀ p ∈ c.key.parents, ∃ d, g.declarations[p]? = some d ∧
      g.canonical.get? d.key = some p ∧ g.size ∉ d.children) :
    ∃ g', (append c).run.run g = (.ok g.size, g') ∧ Appended g c g' := by
  have hfind : c.key.parents.find? (g.size ≤ ·) = none :=
    List.find?_eq_none.mpr fun p hp => by simpa using hlt p hp
  have hready : ∀ p ∈ c.key.parents, ∃ d, (pushed g c).declarations[p]? = some d ∧
      (pushed g c).canonical.get? d.key = some p ∧ g.size ∉ d.children := by
    intro p hp
    obtain ⟨d, hd, hcanonical, hchild⟩ := hparents p hp
    refine ⟨d, ?_, ?_, hchild⟩
    · rw [getElem?_pushed, if_neg (Nat.ne_of_lt (hlt p hp)), hd]
    · -- The key of the new declaration is none that a parent has.
      unfold pushed
      rw [Table.get?_insert, if_neg, hcanonical]
      intro hkey
      rw [eq_of_beq hkey, hcanonical] at hnew
      cases hnew
  obtain ⟨g', hattach, hattached⟩ := attachAll_run hnodup hready
  refine ⟨g', ?_, hattached.appended hlt⟩
  unfold append
  rw [Outcome.run_get_bind]
  simp only [hfind]
  refine Outcome.run_bind_eq_ok.mpr ⟨(), pushed g c, rfl, ?_⟩
  exact Outcome.run_bind_eq_ok.mpr ⟨(), g', hattach, rfl⟩

end Append

section AftBridge

variable {ds : Array (Declaration V)} {id bridge : DeclId}

theorem getElem?_setAftBridge {j : DeclId} {d' : Declaration V}
    (hd' : (ds.modify id (setAftBridge bridge))[j]? = some d') :
    ∃ d, ds[j]? = some d ∧ d'.candidate = d.candidate ∧ d'.children = d.children ∧
      (d'.aftBridge = d.aftBridge ∨ j = id ∧ d'.aftBridge = some bridge) := by
  rw [Array.getElem?_modify] at hd'
  split at hd'
  · rename_i hj
    obtain ⟨d, hd, rfl⟩ := Option.map_eq_some_iff.mp hd'
    exact ⟨d, hd, rfl, rfl, Or.inr ⟨hj.symm, rfl⟩⟩
  · exact ⟨d', hd', rfl, rfl, Or.inl rfl⟩

theorem declaredIn_setAftBridge :
    declaredIn (ds.modify id (setAftBridge bridge)) = declaredIn ds := by
  funext j
  unfold declaredIn
  rw [Array.getElem?_modify]
  split
  · rw [Option.map_map]
    rfl
  · rfl

theorem formed_setAftBridge (h : Formed ds) :
    Formed (ds.modify id (setAftBridge bridge)) := by
  refine ⟨?_, ?_, fun p d' hd' => ?_, fun p d' hd' => ?_⟩
  · rw [declaredIn_setAftBridge]
    exact h.parents_lt
  · rw [declaredIn_setAftBridge]
    exact h.shape
  · obtain ⟨d, hd, -, hchildren, -⟩ := getElem?_setAftBridge hd'
    exact hchildren ▸ h.children_nodup p d hd
  · obtain ⟨d, hd, -, hchildren, -⟩ := getElem?_setAftBridge hd'
    rw [hchildren, declaredIn_setAftBridge]
    exact h.mem_children p d hd

end AftBridge

structure Sound (N : Naming V) [Cell V] (g : GraphBuilder V S) : Prop where
  formed : Formed g.declarations
  canonical : ∀ k id, g.canonical.get? k = some id ↔ ∃ c, g.declared id = some c ∧ c.key = k
  coded : ∀ id c, g.declared id = some c → c.operation.Coded N c.key
  width : ∀ id c, g.declared id = some c → c.width = g.declared.keyWidth c.key
  bridged : ∀ (id : DeclId) d b, g.declarations[id]? = some d → d.aftBridge = some b →
    g.declared b = some (.aftBridge id d.width)
  own : ∀ id c n, g.declared id = some c → .function (.own n) ∈ c.key.params → n < g.nextFunction

/-- A candidate that may be handed to the builder: none of its functions without a name is known
to the graph. -/
structure Ready (N : Naming V) [Cell V] (g : GraphBuilder V S) (c : Candidate V) : Prop where
  shape : g.declared.Shape c.key.parents c.width c.operation
  coded : c.operation.Coded N c.key
  width : c.width = g.declared.keyWidth c.key
  own : ∀ n, .function (.own n) ∈ c.key.params → n < g.nextFunction
  fresh : ∀ n, .function (.own n) ∈ c.key.params → ∀ id d, g.declared id = some d →
    .function (.own n) ∉ d.key.params

/-- A declaration that may stand for the candidate. -/
structure Shares (D : Declared V) (c : Candidate V) (id : DeclId) : Prop where
  declared : ∃ d, D id = some d ∧ d.key = c.key ∧ d.width = c.width ∧
    (d = c ∨ ∀ n, .function (.own n) ∉ c.key.params)

/-- A declaration that has its aft bridge, if it needs one. -/
def Finished (d : Declaration V) : Prop := d.operation.kind.isBridged → d.aftBridge.isSome

def Complete (g : GraphBuilder V S) : Prop :=
  ∀ (id : DeclId) d, g.declarations[id]? = some d → Finished d

/-- A sound graph between two steps. -/
structure Whole (N : Naming V) [Cell V] (g : GraphBuilder V S) : Prop extends Sound N g where
  complete : g.Complete

/-- Nothing new is unfinished, and what was finished still is. -/
def Completes (g g' : GraphBuilder V S) : Prop :=
  ∀ (id : DeclId) d', g'.declarations[id]? = some d' →
    (∀ d, g.declarations[id]? = some d → Finished d) → Finished d'

theorem Completes.refl (g : GraphBuilder V S) : Completes g g := fun _ d' hd' h => h d' hd'

theorem Completes.trans {g g' g'' : GraphBuilder V S} (h : Completes g g')
    (h' : Completes g' g'') : Completes g g'' :=
  fun id d'' hd'' hold => h' id d'' hd'' fun d' hd' => h id d' hd' hold

theorem Complete.completes {g g' : GraphBuilder V S} (h : g.Complete) (hc : Completes g g') :
    g'.Complete := fun id d' hd' => hc id d' hd' fun d hd => h id d hd

/-- A graph in which everything new is of the form `P`. -/
structure Grown (N : Naming V) (P : Candidate V → Prop) [Cell V] (g g' : GraphBuilder V S) :
    Prop where
  sound : g'.Sound N
  kept : g.declared.Extends g'.declared
  made : ∀ id d, g'.declared id = some d → g.declared id = some d ∨ P d
  constraints : g'.constraints = g.constraints

section Growth

variable {N : Naming V} {P : Candidate V → Prop} [Cell V] {g g' g'' : GraphBuilder V S}
  {c : Candidate V} {id p bridge : DeclId}

theorem Grown.refl (h : g.Sound N) : Grown N P g g :=
  ⟨h, .refl _, fun _ _ => Or.inl, rfl⟩

theorem Grown.trans (h : Grown N P g g') (h' : Grown N P g' g'') : Grown N P g g'' :=
  ⟨h'.sound, h.kept.trans h'.kept, fun id d hd => (h'.made id d hd).elim (h.made id d) Or.inr,
    h'.constraints.trans h.constraints⟩

omit [Cell V] in
theorem declared_size (g : GraphBuilder V S) : g.declared g.size = none := by
  have hnone : g.declarations[g.size]? = none := Array.getElem?_eq_none (Nat.le_refl _)
  unfold declared declaredIn
  rw [hnone]
  rfl

omit [Cell V] in
theorem Appended.kept (h : Appended g c g') : g.declared.Extends g'.declared := by
  intro id d hd
  have hne : id ≠ g.size := by
    rintro rfl
    rw [declared_size] at hd
    cases hd
  rw [h.declared, Function.update_of_ne hne]
  exact hd

omit [Cell V] in
theorem Appended.cases (h : Appended g c g') {d : Candidate V} (hd : g'.declared id = some d) :
    id = g.size ∧ d = c ∨ id ≠ g.size ∧ g.declared id = some d := by
  rw [h.declared, Function.update_apply] at hd
  split at hd
  · rename_i hid
    exact Or.inl ⟨hid, (Option.some.inj hd).symm⟩
  · rename_i hid
    exact Or.inr ⟨hid, hd⟩

omit [Cell V] in
theorem Appended.formed (h : Appended g c g') (hf : Formed g.declarations)
    (hc : g.declared.Shape c.key.parents c.width c.operation) : Formed g'.declarations := by
  have hold : ∀ {id d}, g.declared id = some d → id < g.size := fun hd => lt_of_declaredIn hd
  refine ⟨fun id d hd => ?_, fun id d hd => ?_, fun p d hd => ?_, fun p d hd id => ?_⟩
  · rcases h.cases hd with ⟨rfl, rfl⟩ | ⟨-, hd⟩
    · exact h.parents_lt
    · exact hf.parents_lt id d hd
  · rcases h.cases hd with ⟨rfl, rfl⟩ | ⟨-, hd⟩
    · exact hc.kept h.kept
    · exact (hf.shape id d hd).kept h.kept
  · rcases h.children p d hd with ⟨-, -, hnil, -⟩ | ⟨d₀, hd₀, -, -, hchildren⟩
    · rw [hnil]
      exact List.nodup_nil
    · have hnodup := hf.children_nodup p d₀ hd₀
      rw [hchildren]
      split
      · refine List.nodup_append.mpr ⟨hnodup, by simp, fun x hx y hy hxy => ?_⟩
        rw [List.mem_singleton.mp hy] at hxy
        obtain ⟨e, he, -⟩ := (hf.mem_children p d₀ hd₀ x).mp hx
        exact absurd (hxy ▸ hold he) (Nat.lt_irrefl _)
      · exact hnodup
  · change id ∈ d.children ↔ ∃ e, g'.declared id = some e ∧ p ∈ e.key.parents
    rcases h.children p d hd with ⟨rfl, -, hnil, -⟩ | ⟨d₀, hd₀, -, -, hchildren⟩
    · rw [hnil]
      refine iff_of_false (List.not_mem_nil) ?_
      rintro ⟨e, he, hmem⟩
      rcases h.cases he with ⟨rfl, rfl⟩ | ⟨-, he⟩
      · exact absurd (h.parents_lt _ hmem) (Nat.lt_irrefl _)
      · exact absurd (Nat.lt_trans (hf.parents_lt id e he _ hmem) (hold he)) (Nat.lt_irrefl _)
    · have hmem := hf.mem_children p d₀ hd₀ id
      by_cases hid : id = g.size
      · subst hid
        have hnot : g.size ∉ d₀.children := fun hin => by
          obtain ⟨e, he, -⟩ := hmem.mp hin
          exact absurd (hold he) (Nat.lt_irrefl _)
        rw [hchildren, h.declared, Function.update_self]
        by_cases hp : p ∈ c.key.parents <;> simp [hp, hnot]
      · rw [h.declared, Function.update_of_ne hid, hchildren]
        refine Iff.trans ?_ hmem
        split <;> simp [hid]

/-- Appending keeps a graph sound. -/
theorem Sound.append (h : g.Sound N) (hc : Ready N g c) (hP : P c)
    (hnew : g.canonical.get? c.key = none) (happ : Appended g c g') : Grown N P g g' := by
  have hparents : ∀ id d, g.declared id = some d → ∀ p ∈ d.key.parents, (g.declared p).isSome := by
    intro id d hd p hp
    have hlt := h.formed.parents_lt id d hd p hp
    exact isSome_declaredIn.mpr (Nat.lt_trans hlt (lt_of_declaredIn hd))
  refine ⟨⟨happ.formed h.formed hc.shape, fun k id => ?_, fun id d hd => ?_, fun id d hd => ?_,
    fun id d b hd hb => ?_, fun id d n hd hn => ?_⟩, happ.kept, fun id d hd => ?_,
    happ.constraints⟩
  · rw [happ.canonical, Table.get?_insert]
    by_cases hk : c.key = k
    · subst hk
      rw [if_pos BEq.rfl]
      constructor
      · intro hid
        obtain rfl := Option.some.inj hid
        exact ⟨c, by rw [happ.declared, Function.update_self], rfl⟩
      · rintro ⟨d, hd, hkey⟩
        rcases happ.cases hd with ⟨rfl, -⟩ | ⟨-, hd⟩
        · rfl
        · rw [(h.canonical c.key id).mpr ⟨d, hd, hkey⟩] at hnew
          cases hnew
    · rw [if_neg (by simpa using hk), h.canonical]
      constructor
      · rintro ⟨d, hd, hkey⟩
        exact ⟨d, happ.kept id d hd, hkey⟩
      · rintro ⟨d, hd, hkey⟩
        rcases happ.cases hd with ⟨rfl, rfl⟩ | ⟨-, hd⟩
        · exact absurd hkey hk
        · exact ⟨d, hd, hkey⟩
  · rcases happ.cases hd with ⟨rfl, rfl⟩ | ⟨-, hd⟩
    · exact hc.coded
    · exact h.coded id d hd
  · rcases happ.cases hd with ⟨rfl, rfl⟩ | ⟨-, hd⟩
    · rw [hc.width, Declared.keyWidth_kept happ.kept]
      exact fun p hp => isSome_declaredIn.mpr (happ.parents_lt p hp)
    · rw [h.width id d hd, Declared.keyWidth_kept happ.kept (hparents id d hd)]
  · rcases happ.children id d hd with ⟨-, -, -, hnone⟩ | ⟨d₀, hd₀, hcandidate, haft, -⟩
    · rw [hnone] at hb
      cases hb
    · have hwidth : d.width = d₀.width := congrArg Candidate.width hcandidate
      rw [hwidth]
      exact happ.kept b _ (h.bridged id d₀ b hd₀ (haft ▸ hb))
  · rw [happ.nextFunction]
    rcases happ.cases hd with ⟨rfl, rfl⟩ | ⟨-, hd⟩
    · exact hc.own n hn
    · exact h.own id d n hd hn
  · rcases happ.cases hd with ⟨rfl, rfl⟩ | ⟨-, hd⟩
    · exact Or.inr hP
    · exact Or.inl hd

/-- A candidate that the graph is ready for and does not have yet is appended. -/
theorem append_run_of_ready (h : g.Sound N) (hc : Ready N g c) (hnew : g.canonical.get? c.key = none) :
    ∃ g', (append c).run.run g = (.ok g.size, g') ∧ Appended g c g' := by
  have hlt : ∀ p ∈ c.key.parents, p < g.size := fun p hp =>
    isSome_declaredIn.mp (hc.shape.isSome_parent hp)
  refine append_run hlt hc.shape.nodup_parents hnew fun p hp => ?_
  obtain ⟨d, hd, hcandidate⟩ := declaredIn_eq_some.mp (Option.some_get (hc.shape.isSome_parent hp)).symm
  refine ⟨d, hd, (h.canonical d.key p).mpr ⟨_, declaredIn_eq_some.mpr ⟨d, hd, rfl⟩, rfl⟩,
    fun hmem => ?_⟩
  obtain ⟨e, he, -⟩ := (h.formed.mem_children p d hd g.size).mp hmem
  exact absurd (lt_of_declaredIn he) (Nat.lt_irrefl _)

/-- What the graph is ready for can be shared. -/
theorem share_run (h : g.Sound N) (hc : Ready N g c) (hP : P c) :
    ∃ id g', (share c).run.run g = (.ok id, g') ∧ Grown N P g g' ∧ Shares g'.declared c id ∧
      (c.operation.kind.isBridged = false → Completes g g') := by
  unfold share
  rw [Outcome.run_get_bind]
  cases hk : g.canonical.get? c.key with
  | some found =>
      obtain ⟨d, hd, hkey⟩ := (h.canonical c.key found).mp hk
      refine ⟨found, g, rfl, .refl h, ⟨d, hd, hkey, ?_,
        Or.inr fun n hn => hc.fresh n hn found d hd (hkey ▸ hn)⟩, fun _ => .refl g⟩
      rw [h.width found d hd, hkey, hc.width]
  | none =>
      obtain ⟨g', hrun, happ⟩ := append_run_of_ready h hc hk
      refine ⟨g.size, g', hrun, h.append hc hP hk happ,
        ⟨c, by rw [happ.declared, Function.update_self], rfl, rfl, Or.inl rfl⟩,
        fun hplain id d' hd' hold => ?_⟩
      rcases happ.children id d' hd' with ⟨-, rfl, -, -⟩ | ⟨d, hd, hcandidate, haft, -⟩
      · intro hbridged
        cases hplain.symm.trans hbridged
      · have hop : d'.operation = d.operation := congrArg Candidate.operation hcandidate
        unfold Finished
        rw [hop, haft]
        exact hold d hd

/-- Noting the aft bridge of a declaration changes nothing else of what grows. -/
theorem Sound.setAftBridge (h : g.Sound N) {d : Candidate V} (hd : g.declared id = some d)
    (hb : g.declared bridge = some (.aftBridge id d.width)) : Grown N P g
      { g with declarations := g.declarations.modify id (GraphBuilder.setAftBridge bridge) } := by
  generalize hg' : ({ g with
    declarations := g.declarations.modify id (GraphBuilder.setAftBridge bridge) } :
      GraphBuilder V S) = g'
  have hdeclared : g'.declared = g.declared := by
    subst hg'
    exact declaredIn_setAftBridge
  have hformed : Formed g'.declarations := by
    subst hg'
    exact formed_setAftBridge h.formed
  have hbridged : ∀ (j : DeclId) e b, g'.declarations[j]? = some e → e.aftBridge = some b →
      g'.declared b = some (.aftBridge j e.width) := by
    intro j e' b he' hb'
    rw [hdeclared]
    subst hg'
    obtain ⟨e, he, hcandidate, -, haft⟩ := getElem?_setAftBridge he'
    rw [show e'.width = e.width from congrArg Candidate.width hcandidate]
    rcases haft with haft | ⟨rfl, haft⟩
    · exact h.bridged j e b he (haft ▸ hb')
    · have hde : d = e.candidate :=
        Option.some.inj (hd.symm.trans (declaredIn_eq_some.mpr ⟨e, he, rfl⟩))
      obtain rfl := Option.some.inj (haft.symm.trans hb')
      rw [hb, hde]
      rfl
  have hsound : g'.Sound N := by
    refine ⟨hformed, ?_, ?_, ?_, hbridged, ?_⟩
    · rw [hdeclared, ← hg']
      exact h.canonical
    · rw [hdeclared]
      exact h.coded
    · rw [hdeclared]
      exact h.width
    · rw [hdeclared, ← hg']
      exact h.own
  exact ⟨hsound, hdeclared ▸ .refl _, fun j c hc => Or.inl (hdeclared ▸ hc), hg' ▸ rfl⟩

/-- A declaration with the key of an aft bridge is that bridge. -/
theorem Sound.eq_aftBridge (h : g.Sound N) {w : Nat} (hs : Shares g.declared (.aftBridge p w) id) :
    g.declared id = some (.aftBridge p w) := by
  obtain ⟨d, hd, hkey, hwidth, -⟩ := hs
  obtain ⟨key, op, width⟩ := d
  obtain ⟨hkind, -⟩ := h.coded id _ hd
  obtain rfl : key = _ := hkey
  obtain rfl : width = w := hwidth
  rw [hd]
  cases op <;> first | rfl | cases hkind

theorem ready_aftBridge {d : Candidate V} (hd : g.declared p = some d)
    (hplain : d.operation.isOpen) : Ready N g (.aftBridge p d.width) := by
  have hwidth : g.declared.width p = d.width := by
    unfold Declared.width
    rw [hd]
    rfl
  refine ⟨⟨p, rfl, ⟨d, hd, hplain⟩, hwidth.symm⟩, ⟨rfl, rfl⟩, hwidth.symm, fun n hn => ?_,
    fun n hn => ?_⟩ <;> cases hn

/-- What the graph is ready for can be shared together with its aft bridge. -/
theorem shareBridged_run (h : g.Whole N) (hc : Ready N g c) (hP : P c)
    (hbridge : ∀ id w, P (.aftBridge id w)) (hbridged : c.operation.kind.isBridged) :
    ∃ bridge g', (shareBridged c).run.run g = (.ok bridge, g') ∧ Grown N P g g' ∧
      Completes g g' ∧ ∃ id, Shares g'.declared c id ∧
        g'.declared bridge = some (.aftBridge id c.width) := by
  unfold shareBridged
  rw [Outcome.run_get_bind]
  cases hk : g.canonical.get? c.key with
  | some found =>
      obtain ⟨e, he, hkey⟩ := (h.canonical c.key found).mp hk
      have hwidth : e.width = c.width := by rw [h.width found e he, hkey, hc.width]
      have hkind : e.operation.kind = c.operation.kind := by
        rw [← (h.coded found e he).1, ← hc.coded.1, hkey]
      obtain ⟨d, hd, rfl⟩ := declaredIn_eq_some.mp he
      obtain ⟨bridge, hb⟩ := Option.isSome_iff_exists.mp
        (h.complete found d hd (by rwa [← hkind] at hbridged))
      refine ⟨bridge, g, ?_, .refl h.toSound, .refl g, found, ⟨d.candidate, he, hkey, hwidth,
        Or.inr fun n hn => hc.fresh n hn found _ he (hkey ▸ hn)⟩, ?_⟩
      · simp only
        rw [Outcome.run_get_bind, hd, Option.bind_some, hb]
        rfl
      · rw [← hwidth]
        exact h.bridged found d bridge hd hb
  | none =>
      obtain ⟨g₁, happend, happ⟩ := append_run_of_ready h.toSound hc hk
      have hgrown := h.append hc hP hk happ
      have hself : g₁.declared g.size = some c := by rw [happ.declared, Function.update_self]
      obtain ⟨bridge, g₂, hshare, hgrown', hshares, hcompletes⟩ := share_run hgrown.sound
        (ready_aftBridge hself (Operation.isOpen_of_isBridged hbridged)) (hbridge g.size c.width)
      have hb := hgrown'.sound.eq_aftBridge hshares
      have hlast := hgrown'.sound.setAftBridge (P := P) (hgrown'.kept _ _ hself) hb
      refine ⟨bridge, _, Outcome.run_bind_eq_ok.mpr ⟨g.size, g₁, happend,
        Outcome.run_bind_eq_ok.mpr ⟨bridge, g₂, hshare, rfl⟩⟩,
        (hgrown.trans hgrown').trans hlast, fun id d' hd' hold => ?_, g.size,
        ⟨c, hlast.kept _ _ (hgrown'.kept _ _ hself), rfl, rfl, Or.inl rfl⟩, hlast.kept _ _ hb⟩
      -- The new declaration gets its bridge at once; whatever else is new is a bridge.
      rw [Array.getElem?_modify] at hd'
      split at hd'
      · obtain ⟨d, -, rfl⟩ := Option.map_eq_some_iff.mp hd'
        exact fun _ => rfl
      · rename_i hne
        refine hcompletes rfl id d' hd' fun d₁ hd₁ => ?_
        rcases happ.children id d₁ hd₁ with ⟨heq, -⟩ | ⟨d, hd, hcandidate, haft, -⟩
        · exact absurd heq.symm hne
        · have hop : d₁.operation = d.operation := congrArg Candidate.operation hcandidate
          unfold Finished
          rw [hop, haft]
          exact hold d hd

/-- A declaration with the key of a fore bridge is that bridge. -/
theorem Sound.eq_foreBridge (h : g.Sound N) {side : Side} {w : Nat}
    (hs : Shares g.declared (.foreBridge p side w) id) :
    g.declared id = some (.foreBridge p side w) := by
  obtain ⟨d, hd, hkey, hwidth, -⟩ := hs
  obtain ⟨key, op, width⟩ := d
  obtain ⟨hkind, hparams⟩ := h.coded id _ hd
  obtain rfl : key = _ := hkey
  obtain rfl : width = w := hwidth
  rw [hd]
  cases op with
  | foreBridge side' =>
      have hparams : [Param.side side] = [.side side'] := hparams
      simp only [List.cons.injEq, Param.side.injEq, and_true] at hparams
      rw [hparams]
      rfl
  | _ => cases hkind

omit [Cell V] in
theorem width_eq (g : GraphBuilder V S) (id : DeclId) : g.width id = g.declared.width id := by
  unfold width Declared.width declared declaredIn
  cases g.declarations[id]? <;> rfl

theorem foreBridge_run (h : g.Sound N) (side : Side) (hplain : g.declared.Plain p)
    (hP : ∀ w, P (.foreBridge p side w)) : ∃ id g', (foreBridge p side).run.run g = (.ok id, g') ∧
      Grown N P g g' ∧ Completes g g' ∧
        g'.declared id = some (.foreBridge p side (g.declared.width p)) := by
  have hready : Ready N g (.foreBridge p side (g.declared.width p)) := by
    refine ⟨⟨p, rfl, hplain, rfl⟩, ⟨rfl, rfl⟩, rfl, fun n hn => ?_, fun n hn => ?_⟩ <;>
      simp [Candidate.foreBridge] at hn
  obtain ⟨id, g', hrun, hgrown, hshares, hcompletes⟩ := share_run h hready (hP _)
  refine ⟨id, g', ?_, hgrown, hcompletes rfl, hgrown.sound.eq_foreBridge hshares⟩
  unfold foreBridge
  rw [Outcome.run_get_bind, width_eq]
  exact hrun

omit [Cell V] in
theorem numbered_run {α : Type} (x : Numbering α) : (numbered x : Build V S α).run.run g =
    (.ok (x.run g.nextFunction).1, { g with nextFunction := (x.run g.nextFunction).2 }) := rfl

/-- Numbering the functions of a candidate makes it ready. -/
theorem Sound.numbered (h : g.Sound N) {k : Nat} (hn : Numbered g.nextFunction k c.key.params)
    (hshape : g.declared.Shape c.key.parents c.width c.operation) (hcoded : c.operation.Coded N c.key)
    (hwidth : c.width = g.declared.keyWidth c.key) :
    Grown N P g { g with nextFunction := k } ∧ Ready N { g with nextFunction := k } c := by
  refine ⟨⟨⟨h.formed, h.canonical, h.coded, h.width, h.bridged, fun id d n hd hmem => ?_⟩, .refl _,
    fun _ _ => Or.inl, rfl⟩, hshape, hcoded, hwidth, fun n hmem => (hn.range n hmem).2,
    fun n hmem id d hd hmem' => ?_⟩
  · exact Nat.lt_of_lt_of_le (h.own id d n hd hmem) hn.le
  · exact absurd (h.own id d n hd hmem') (Nat.not_lt.mpr (hn.range n hmem).1)

/-- Each constraint has a declaration of its own at the end of its stream. -/
structure Ended (g : GraphBuilder V S) : Prop where
  score : ∀ i k, g.constraints[i]? = some k → ∃ p w, g.declared k.scoreDecl = some (.score p i w)
  constraint : ∀ id c i, g.declared id = some c → c.operation = .score i →
    ∃ k, g.constraints[i]? = some k ∧ k.scoreDecl = id

theorem Ended.grown (h : g.Ended) (hg : Grown N P g g')
    (hP : ∀ c, P c → ∀ i, c.operation ≠ .score i) : g'.Ended := by
  refine ⟨fun i k hk => ?_, fun id c i hc hi => ?_⟩
  · rw [hg.constraints] at hk
    obtain ⟨p, w, hp⟩ := h.score i k hk
    exact ⟨p, w, hg.kept _ _ hp⟩
  · rw [hg.constraints]
    exact h.constraint id c i ((hg.made id c hc).resolve_right fun hn => hP c hn i hi) hi

/-- A declaration with the key of the end of a stream is that end. -/
theorem Sound.eq_score (h : g.Sound N) {i w : Nat} (hs : Shares g.declared (.score p i w) id) :
    g.declared id = some (.score p i w) := by
  obtain ⟨d, hd, hkey, hwidth, -⟩ := hs
  obtain ⟨key, op, width⟩ := d
  obtain ⟨hkind, hparams⟩ := h.coded id _ hd
  obtain rfl : key = _ := hkey
  obtain rfl : width = w := hwidth
  rw [hd]
  cases op with
  | score j =>
      have hparams : [Param.index i] = [.index j] := hparams
      simp only [List.cons.injEq, Param.index.injEq, and_true] at hparams
      rw [hparams]
      rfl
  | _ => cases hkind

/-- What registering a constraint leads to. -/
structure Registered (N : Naming V) (g : GraphBuilder V S) (p : DeclId) (k : ConstraintDef V S)
    (index : Nat) (g' : GraphBuilder V S) : Prop where
  sound : g'.Sound N
  ended : g'.Ended
  kept : g.declared.Extends g'.declared
  number : index = g.constraints.size
  completes : Completes g g'
  constraints : ∃ id, g'.constraints = g.constraints.push { k with scoreDecl := id } ∧
    g'.declared id = some (.score p index (g.declared.width p))
  made : ∀ id d, g'.declared id = some d →
    g.declared id = some d ∨ d = .score p index (g.declared.width p)

/-- A key is declared once. -/
theorem Sound.eq_of_key (h : g.Sound N) {d e : Candidate V} (hd : g.declared id = some d)
    (he : g.declared p = some e) (hkey : d.key = e.key) : id = p := by
  have hid := (h.canonical d.key id).mpr ⟨d, hd, rfl⟩
  have hp := (h.canonical d.key p).mpr ⟨e, he, hkey.symm⟩
  exact Option.some.inj (hid.symm.trans hp)

/-- Whether a constraint goes by the name already. -/
def hasName (g : GraphBuilder V S) (fullName : String) : Bool :=
  g.constraints.any fun d => d.ref.fullName == fullName

omit [Cell V] in
theorem addConstraint_refuses {k : ConstraintDef V S} (hk : g.hasName k.ref.fullName = true) :
    (addConstraint p k).run.run g = (.error (.config (.duplicateConstraint k.ref.fullName)), g) := by
  unfold hasName at hk
  unfold addConstraint
  rw [Outcome.run_get_bind]
  simp only [hk]
  rfl

/-- A constraint with a new name can be registered. -/
theorem addConstraint_run (h : g.Sound N) (hended : g.Ended) (hplain : g.declared.Plain p)
    {k : ConstraintDef V S} (hk : g.hasName k.ref.fullName = false) :
    ∃ g', (addConstraint p k).run.run g = (.ok g.constraints.size, g') ∧
      Registered N g p k g.constraints.size g' := by
  have hready : Ready N g (.score p g.constraints.size (g.declared.width p)) := by
    refine ⟨⟨p, rfl, hplain, rfl⟩, ⟨rfl, rfl⟩, rfl, fun n hn => ?_, fun n hn => ?_⟩ <;>
      simp [Candidate.score] at hn
  obtain ⟨id, g₁, hshare, hgrown, hshares, hcompletes⟩ := share_run
    (P := fun c => c = .score p g.constraints.size (g.declared.width p)) h hready rfl
  refine ⟨{ g₁ with constraints := g₁.constraints.push { k with scoreDecl := id } }, ?_, ?_⟩
  · unfold hasName at hk
    unfold addConstraint
    rw [Outcome.run_get_bind]
    simp only [hk, width_eq]
    exact Outcome.run_bind_eq_ok.mpr ⟨id, g₁, hshare, rfl⟩
  have hscore := hgrown.sound.eq_score hshares
  have hsound : { g₁ with constraints := g₁.constraints.push { k with scoreDecl := id } }.Sound N :=
    ⟨hgrown.sound.formed, hgrown.sound.canonical, hgrown.sound.coded, hgrown.sound.width,
      hgrown.sound.bridged, hgrown.sound.own⟩
  have hpush : ∀ i, (g₁.constraints.push { k with scoreDecl := id })[i]? =
      if i = g.constraints.size then some { k with scoreDecl := id } else g.constraints[i]? :=
    fun i => by rw [hgrown.constraints, Array.getElem?_push]
  refine ⟨hsound, ⟨fun i k' hk' => ?_, fun j c i hc hi => ?_⟩, hgrown.kept, rfl, hcompletes rfl,
    ⟨id, ?_, hscore⟩, hgrown.made⟩
  · have hk' := (hpush i).symm.trans hk'
    split at hk'
    · rename_i hi
      obtain rfl := Option.some.inj hk'
      exact ⟨p, _, hi ▸ hscore⟩
    · obtain ⟨q, w, hq⟩ := hended.score i k' hk'
      exact ⟨q, w, hgrown.kept _ _ hq⟩
  · have hi' := hpush i
    rcases hgrown.made j c hc with hc | rfl
    · obtain ⟨k', hk', hdecl⟩ := hended.constraint j c i hc hi
      have hne : i ≠ g.constraints.size := by
        rintro rfl
        rw [Array.getElem?_eq_none (Nat.le_refl _)] at hk'
        cases hk'
      rw [if_neg hne, hk'] at hi'
      exact ⟨k', hi', hdecl⟩
    · obtain rfl : g.constraints.size = i := Operation.score.inj hi
      rw [if_pos rfl] at hi'
      exact ⟨_, hi', hgrown.sound.eq_of_key hscore hc rfl⟩
  · rw [← hgrown.constraints]

/-- What registering a constraint led to. -/
theorem registered_of_run (h : g.Sound N) (hended : g.Ended) (hplain : g.declared.Plain p)
    {k : ConstraintDef V S} {index : Nat} (hrun : (addConstraint p k).run.run g = (.ok index, g')) :
    Registered N g p k index g' := by
  cases hk : g.hasName k.ref.fullName with
  | true =>
      rw [addConstraint_refuses hk] at hrun
      cases (Prod.mk.inj hrun).1
  | false =>
      obtain ⟨g'', hrun', hregistered⟩ := addConstraint_run h hended hplain hk
      obtain ⟨rfl, rfl⟩ := Outcome.answer_inj (hrun'.symm.trans hrun)
      exact hregistered

end Growth

end GraphBuilder

end ConstraintScoring
