import ConstraintScoring.Proofs.Network.Compiled
import ConstraintScoring.Proofs.Network.Wiring
import Mathlib.Data.List.Nodup

/-!
# Routes through bridges

A route leads from a node to a reader that is its child, or a child of a bridge behind it. As every
bridge has one parent only, going back from a reader there is one way, and it ends at the node that
made the tuples.
-/

namespace ConstraintScoring.Network

variable {V S : Type}

theorem addRoutes_size (nodes : Array (NetworkNode V S)) (routes : Array (List Route)) (id : NodeId) :
    (addRoutes nodes routes id).size = routes.size := by
  unfold addRoutes
  split <;> simp

/-- The routes of a node as those of its children make them. -/
def routesVia (nodes : Array (NetworkNode V S)) (routes : Array (List Route)) (id : NodeId) :
    List Route :=
  match nodes[id]? with
  | none => []
  | some node => node.children.flatMap (routesTo nodes routes node.kind.outwardSide)

theorem addRoutes_getD {nodes : Array (NetworkNode V S)} {routes : Array (List Route)} {id : NodeId}
    (hid : id < nodes.size) (hsize : routes.size = nodes.size) (j : NodeId) :
    (addRoutes nodes routes id).getD j [] =
      if j = id then routesVia nodes routes id else routes.getD j [] := by
  unfold addRoutes routesVia
  rw [Array.getElem?_eq_getElem hid]
  by_cases hj : j = id
  · subst hj
    simp [hsize, hid]
  · simp [hj, Ne.symm hj, Array.getD_eq_getD_getElem?]

theorem routesVia_congr {nodes : Array (NetworkNode V S)} {routes routes' : Array (List Route)}
    {id : NodeId} (h : ∀ node, nodes[id]? = some node → ∀ c ∈ node.children,
      routes.getD c [] = routes'.getD c []) : routesVia nodes routes id = routesVia nodes routes' id := by
  unfold routesVia
  split
  · rfl
  · rename_i node hnode
    simp only [List.flatMap]
    refine congrArg List.flatten (List.map_congr_left fun c hc => ?_)
    unfold routesTo
    rw [h node hnode c hc]

/-- Routes are complete once every node has been gone through, children before parents. -/
theorem allRoutes_getD {nodes : Array (NetworkNode V S)}
    (hlt : ∀ (id : NodeId) node, nodes[id]? = some node → ∀ c ∈ node.children, id < c) (id : NodeId) :
    (allRoutes nodes).getD id [] = routesVia nodes (allRoutes nodes) id := by
  have hfold : ∀ n ≤ nodes.size, ∀ routes : Array (List Route), routes.size = nodes.size →
      (∀ j, n ≤ j → routes.getD j [] = routesVia nodes routes j) →
      ∀ j, ((List.range n).reverse.foldl (addRoutes nodes) routes).getD j [] =
        routesVia nodes ((List.range n).reverse.foldl (addRoutes nodes) routes) j := by
    intro n
    induction n with
    | zero => exact fun _ _ _ h j => h j (Nat.zero_le j)
    | succ n ih =>
        intro hn routes hsize hdone
        rw [List.range_succ, List.reverse_append, List.reverse_singleton, List.singleton_append,
          List.foldl_cons]
        have hget := addRoutes_getD (Nat.lt_of_succ_le hn) hsize
        refine ih (Nat.le_of_succ_le hn) _ ((addRoutes_size ..).trans hsize) fun j hj => ?_
        have hsame : routesVia nodes (addRoutes nodes routes n) j = routesVia nodes routes j := by
          refine routesVia_congr fun node hnode c hc => ?_
          rw [hget, if_neg (Nat.ne_of_gt (Nat.lt_of_le_of_lt hj (hlt j node hnode c hc)))]
        rw [hsame, hget]
        split
        · rename_i hjn
          rw [hjn]
        · rename_i hjn
          exact hdone j (Nat.lt_of_le_of_ne hj (Ne.symm hjn))
  refine hfold nodes.size (Nat.le_refl _) _ Array.size_replicate (fun j hj => ?_) id
  unfold routesVia
  rw [Array.getElem?_eq_none hj]
  simp [Array.getD_eq_getD_getElem?, Nat.not_lt.mpr hj]

/-- The second node is a child of the first one. -/
def Below (net : Network V S) (p c : NodeId) : Prop :=
  ∃ a, net.nodes[p]? = some a ∧ c ∈ a.children

abbrev IsBridge (net : Network V S) (id : NodeId) : Prop := (net.kindAt id).isBridge = true

def outward (net : Network V S) (id : NodeId) : Side := (net.kindAt id).outwardSide

/-- How the nodes of a network lie below each other. -/
structure Laid (net : Network V S) : Prop where
  routes : net.routes = allRoutes net.nodes
  exists_node : ∀ p c : Nat, net.Below p c → c < net.nodes.size
  lt : ∀ p c : Nat, net.Below p c → p < c
  children_nodup : ∀ (p : NodeId) a, net.nodes[p]? = some a → a.children.Nodup
  parent : ∀ p p' c, net.IsBridge c → net.Below p c → net.Below p' c → p = p'
  feeder : ∀ p p' c, net.Below p c → net.Below p' c → net.outward p = net.outward p' → p = p'

/-- The tuples of the first node come to the second one, which is the first or a bridge. -/
inductive Behind (net : Network V S) (p : NodeId) : NodeId → Prop where
  | refl : Behind net p p
  | step {q e} : Behind net p q → net.Below q e → net.IsBridge e → Behind net p e

/-- The readers that the tuples of a node come to. -/
def Leads (net : Network V S) (p : NodeId) (r : Route) : Prop :=
  ∃ e, Behind net p e ∧ net.Below e r.node ∧ ¬net.IsBridge r.node ∧ r.side = net.outward e

section

variable {net : Network V S} {p q c e : NodeId} {r : Route}

namespace Behind

theorem trans (h : Behind net p q) (h' : Behind net q e) : Behind net p e := by
  induction h' with
  | refl => exact h
  | step _ hb hbridge ih => exact .step ih hb hbridge

theorem le (h : Behind net p e) (hl : net.Laid) : p ≤ e := by
  induction h with
  | refl => exact Nat.le_refl p
  | step _ hb _ ih => exact Nat.le_trans ih (Nat.le_of_lt (hl.lt _ _ hb))

/-- Of two nodes whose tuples come to a third one, the tuples of one come to the other. -/
theorem total (h : Behind net p e) (h' : Behind net q e) (hl : net.Laid) :
    Behind net p q ∨ Behind net q p := by
  induction h generalizing q with
  | refl => exact Or.inr h'
  | step hp hb hbridge ih =>
      cases h' with
      | refl => exact Or.inl (.step hp hb hbridge)
      | step hq hb' _ =>
          obtain rfl := hl.parent _ _ _ hbridge hb hb'
          exact ih hq

/-- What comes to a node other than itself comes to its parent first. -/
theorem parent (h : Behind net q e) (hne : q ≠ e) (hb : net.Below p e) (hl : net.Laid) :
    Behind net q p := by
  cases h with
  | refl => exact absurd rfl hne
  | step hq hb' hbridge =>
      obtain rfl := hl.parent _ _ _ hbridge hb' hb
      exact hq

theorem eq_of_not_bridge (h : Behind net p e) (he : ¬net.IsBridge e) : p = e := by
  cases h with
  | refl => rfl
  | step _ _ hbridge => exact absurd hbridge he

end Behind

theorem kindAt_of_node {a : NetworkNode V S} (ha : net.nodes[p]? = some a) : net.kindAt p = a.kind := by
  unfold kindAt
  rw [ha]
  rfl

theorem Laid.routesOf_eq (hl : net.Laid) (p : NodeId) :
    net.routesOf p = routesVia net.nodes net.routes p := by
  unfold routesOf
  rw [hl.routes]
  exact allRoutes_getD (fun id node hnode c hc => hl.lt id c ⟨node, hnode, hc⟩) p

theorem Laid.mem_routesTo (hl : net.Laid) (hb : net.Below p c) {side : Side} :
    r ∈ routesTo net.nodes net.routes side c ↔
      if net.IsBridge c then r ∈ net.routesOf c else r = ⟨c, side⟩ := by
  obtain ⟨a, hc⟩ : ∃ a, net.nodes[c]? = some a :=
    ⟨_, Array.getElem?_eq_getElem (hl.exists_node p c hb)⟩
  have hkind := kindAt_of_node hc
  unfold routesTo
  simp only [hc, IsBridge, hkind]
  by_cases hbridge : a.kind.isBridge <;> simp [hbridge, routesOf]

theorem Laid.mem_routesOf_iff (hl : net.Laid) : r ∈ net.routesOf p ↔ ∃ c, net.Below p c ∧
    if net.IsBridge c then r ∈ net.routesOf c else r = ⟨c, net.outward p⟩ := by
  rw [hl.routesOf_eq p]
  unfold routesVia
  cases hp : net.nodes[p]? with
  | none => simp [Below, hp]
  | some a =>
      simp only [List.mem_flatMap]
      refine exists_congr fun c => ?_
      have hbelow : net.Below p c ↔ c ∈ a.children := by
        unfold Below
        simp [hp]
      rw [hbelow]
      refine and_congr_right fun hc => ?_
      rw [hl.mem_routesTo (hbelow.mpr hc), outward, kindAt_of_node hp]

/-- The routes of a node lead to the readers that its tuples come to. -/
theorem Laid.mem_routesOf (hl : net.Laid) : r ∈ net.routesOf p ↔ net.Leads p r := by
  have hdown : ∀ k p : Nat, net.nodes.size - p ≤ k → (r ∈ net.routesOf p → net.Leads p r) := by
    intro k
    induction k with
    | zero =>
        intro p hp hr
        obtain ⟨c, hb, -⟩ := hl.mem_routesOf_iff.mp hr
        have := hl.lt p c hb
        have := hl.exists_node p c hb
        omega
    | succ k ih =>
        intro p hp hr
        obtain ⟨c, hb, hr⟩ := hl.mem_routesOf_iff.mp hr
        by_cases hbridge : net.IsBridge c
        · rw [if_pos hbridge] at hr
          have := hl.lt p c hb
          have := hl.exists_node p c hb
          obtain ⟨e, he, hrest⟩ := ih c (by omega) hr
          exact ⟨e, (Behind.refl.step hb hbridge).trans he, hrest⟩
        · rw [if_neg hbridge] at hr
          subst hr
          exact ⟨p, .refl, hb, hbridge, rfl⟩
  have hup : ∀ q e, Behind net q e → (r ∈ net.routesOf e → r ∈ net.routesOf q) := by
    intro q e h
    induction h with
    | refl => exact id
    | step _ hb hbridge ih =>
        exact fun hr => ih (hl.mem_routesOf_iff.mpr ⟨_, hb, by rwa [if_pos hbridge]⟩)
  refine ⟨hdown _ p (Nat.le_refl _), ?_⟩
  rintro ⟨e, he, hb, hbridge, hside⟩
  refine hup p e he (hl.mem_routesOf_iff.mpr ⟨r.node, hb, ?_⟩)
  rw [if_neg hbridge, ← hside]

/-- A reader hears on a side from the tuples of one node only. -/
theorem Laid.producer (hl : net.Laid) (hp : net.Leads p r) (hq : net.Leads q r)
    (hpb : ¬net.IsBridge p) (hqb : ¬net.IsBridge q) : p = q := by
  obtain ⟨e, he, hb, -, hside⟩ := hp
  obtain ⟨e', he', hb', -, hside'⟩ := hq
  obtain rfl := hl.feeder e e' r.node hb hb' (hside.symm.trans hside')
  rcases he.total he' hl with h | h
  · exact h.eq_of_not_bridge hqb
  · exact (h.eq_of_not_bridge hpb).symm

/-- What comes to a reader through different children of a node is heard on different sides. -/
theorem Laid.disjoint (hl : net.Laid) {c c' : NodeId} (hc : net.Below p c) (hc' : net.Below p c')
    (hne : c ≠ c') : List.Disjoint (routesTo net.nodes net.routes (net.outward p) c)
      (routesTo net.nodes net.routes (net.outward p) c') := by
  have hfrom : ∀ {x : NodeId} {r : Route}, net.Below p x →
      r ∈ routesTo net.nodes net.routes (net.outward p) x → ∃ e, net.Below e r.node ∧
        r.side = net.outward e ∧ (r.node = x ∧ e = p ∨ Behind net x e) := by
    intro x r hx hr
    rw [hl.mem_routesTo hx] at hr
    split at hr
    · obtain ⟨e, he, hb, -, hside⟩ := hl.mem_routesOf.mp hr
      exact ⟨e, hb, hside, Or.inr he⟩
    · subst hr
      exact ⟨p, hx, rfl, Or.inl ⟨rfl, rfl⟩⟩
  have hbefore : ∀ {x : NodeId}, net.Below p x → ¬Behind net x p := fun hx h =>
    Nat.not_le.mpr (hl.lt _ _ hx) (h.le hl)
  intro r hr hr'
  obtain ⟨e, hb, hside, h⟩ := hfrom hc hr
  obtain ⟨e', hb', hside', h'⟩ := hfrom hc' hr'
  obtain rfl := hl.feeder e e' r.node hb hb' (hside.symm.trans hside')
  rcases h with ⟨hnode, rfl⟩ | h
  · rcases h' with ⟨hnode', -⟩ | h'
    · exact hne (hnode.symm.trans hnode')
    · exact hbefore hc' h'
  · rcases h' with ⟨-, rfl⟩ | h'
    · exact hbefore hc h
    · rcases h.total h' hl with hcc | hcc
      · exact hbefore hc (hcc.parent hne hc' hl)
      · exact hbefore hc' (hcc.parent (Ne.symm hne) hc hl)

theorem Laid.routes_nodup (hl : net.Laid) (p : NodeId) : (net.routesOf p).Nodup := by
  have hdown : ∀ k p : Nat, net.nodes.size - p ≤ k → (net.routesOf p).Nodup := by
    intro k
    induction k with
    | zero =>
        intro p hp
        have hnone : net.nodes[p]? = none := Array.getElem?_eq_none (by omega)
        rw [hl.routesOf_eq]
        unfold routesVia
        rw [hnone]
        exact List.nodup_nil
    | succ k ih =>
        intro p hp
        rw [hl.routesOf_eq]
        unfold routesVia
        cases hnode : net.nodes[p]? with
        | none => exact List.nodup_nil
        | some a =>
            have hbelow : ∀ c ∈ a.children, net.Below p c := fun c hc => ⟨a, hnode, hc⟩
            have hside : a.kind.outwardSide = net.outward p := by rw [outward, kindAt_of_node hnode]
            simp only [hside]
            refine List.nodup_flatMap.mpr ⟨fun c hc => ?_, ?_⟩
            · have hlt := hl.lt p c (hbelow c hc)
              have hsize := hl.exists_node p c (hbelow c hc)
              unfold routesTo
              split
              · exact List.nodup_nil
              · split
                · exact ih c (by omega)
                · exact List.nodup_singleton _
            · refine (hl.children_nodup p a hnode).pairwise_of_forall_ne fun c hc c' hc' hne => ?_
              exact hl.disjoint (hbelow c hc) (hbelow c' hc') hne
  exact hdown _ p (Nat.le_refl _)

end

end ConstraintScoring.Network
