import ConstraintScoring.Proofs.Graph.Frozen
import ConstraintScoring.Proofs.Network.Feeding
import ConstraintScoring.Proofs.Network.Scoring
import ConstraintScoring.Proofs.Session.Reached
import ConstraintScoring.Proofs.Stream.Provider

/-!
# The session factories of providers

Whatever a provider declares and whichever of its constraints are chosen, the frozen graph can be
compiled, and in the network every active constraint has one node of its own that scores it.
-/

namespace ConstraintScoring

variable {V S : Type}

/-- A query has `P` only if its last operation has `R` and the queries below it have `P`. -/
def Query.Spreads (P : Query V → Prop) (R : Operation V → Prop) : Prop :=
  ∀ op qs q, Operation.query op qs = some q → P q → R op ∧ ∀ q' ∈ qs, P q'

/-- What spreads over a query comes to all that the query is computed from. -/
theorem Unfolds.spreads {P : Query V → Prop} {R : Operation V → Prop} {D : Declared V}
    {root id : DeclId} {q : Query V} {c : Candidate V} (hspreads : Query.Spreads P R)
    (hq : Unfolds D root q) (hP : P q) (h : DependsOn D root id) (hc : D id = some c) :
    R c.operation := by
  have hbelow : ∃ q', Unfolds D id q' ∧ P q' := by
    clear hc
    induction h with
    | self => exact ⟨q, hq, hP⟩
    | parent _ hd hp ih =>
        obtain ⟨q', hq', hP'⟩ := ih
        obtain ⟨d, qs, hd', hqs, hop⟩ := hq'.exists_parents
        obtain rfl := Option.some.inj (hd.symm.trans hd')
        obtain ⟨i, hi, rfl⟩ := List.mem_iff_getElem.mp hp
        exact ⟨_, hqs.get hi (hqs.length_eq ▸ hi),
          (hspreads _ _ _ hop hP').2 _ (List.get_mem qs ⟨i, _⟩)⟩
  obtain ⟨q', hq', hP'⟩ := hbelow
  obtain ⟨d, qs, hd, -, hop⟩ := hq'.exists_parents
  obtain rfl := Option.some.inj (hc.symm.trans hd)
  exact (hspreads _ _ _ hop hP').1

variable [Cell V] [Score S]

namespace SessionFactory

/-- A session factory for some of the constraints that a provider has finished. -/
inductive ProvidedBy (N : Naming V) (settings : FactorySettings S) (domain : DomainModel V)
    (written : List (Written V S)) (chosen : List Constraint) (f : SessionFactory V S) : Prop where
  | made {id : Nat} {g : ConstraintFactory V S} {streams : List (Stream × Query V)} :
      Provided N id domain g streams written → ofConstraints settings g chosen = .ok f →
      ProvidedBy N settings domain written chosen f

/-- The graph builder that a session factory was made of. -/
structure Origin (N : Naming V) (settings : FactorySettings S) (written : List (Written V S))
    (chosen : List Constraint) (f : SessionFactory V S) (b : GraphBuilder V S) : Prop where
  sound : b.Sound N
  ended : b.Ended
  covers : f.domain.Covers b.declared
  frozen : Frozen b (chosen.map (·.index)) settings.overrides f.graph
  size : b.constraints.size = written.length
  recorded : ∀ i w, written[i]? = some w →
    ∃ k, b.constraints[i]? = some k ∧ Recorded N b.declared i w k

variable {N : Naming V} {settings : FactorySettings S} {domain : DomainModel V}
  {written : List (Written V S)} {chosen : List Constraint} {f : SessionFactory V S}
  {b : GraphBuilder V S} {net : Network V S}

theorem ProvidedBy.origin (h : ProvidedBy N settings domain written chosen f) :
    f.domain = domain ∧ f.mode = settings.mode ∧ ∃ b, Origin N settings written chosen f b := by
  obtain ⟨hprovided, hf⟩ := h
  rename_i id g streams
  obtain ⟨graph, hgraph, hf⟩ := Outcome.bind_eq_ok.mp hf
  obtain rfl := Except.ok.inj hf
  have hsound := hprovided.sound
  unfold ConstraintFactory.freeze at hgraph
  split at hgraph
  · cases hgraph
  · exact ⟨hsound.domain, rfl, g.graph, hsound.graph.toSound, hsound.ended, hsound.covers,
      freeze_spec hgraph hsound.graph.formed hsound.ended, hsound.size, hsound.recorded⟩

namespace Origin

theorem formed (h : Origin N settings written chosen f b) : Formed f.graph.declarations := by
  rw [h.frozen.declarations]
  exact h.sound.formed

theorem declared_eq (h : Origin N settings written chosen f b) :
    declaredIn f.graph.declarations = b.declared := by
  rw [h.frozen.declarations]
  rfl

theorem compilable (h : Origin N settings written chosen f b) :
    Network.Compilable f.graph f.domain := by
  have hdeclared : ∀ {id : DeclId} {d : Declaration V}, f.graph.declarations[id]? = some d →
      b.declared id = some d.candidate := fun hd => by
    rw [← h.declared_eq]
    exact declaredIn_eq_some.mpr ⟨_, hd, rfl⟩
  refine ⟨fun id d hd hid p hp => ?_, fun id d hd hid => ?_⟩
  · exact ⟨h.sound.formed.parents_lt id _ (hdeclared hd) p hp,
      h.frozen.isActive_parent hid (hdeclared hd) hp⟩
  · cases hop : d.operation with
    | source type includeUnassigned =>
        obtain ⟨c, hc⟩ := h.covers id _ type includeUnassigned (hdeclared hd) hop
        have hnode : ∃ n, Network.sourceNode f.domain type includeUnassigned = .ok n := by
          unfold Network.sourceNode
          rw [hc]
          exact ⟨_, rfl⟩
        obtain ⟨n, hn⟩ := hnode
        exact ⟨.source n, Outcome.bind_eq_ok.mpr ⟨n, hn, rfl⟩⟩
    | score i =>
        have hi := (h.frozen.isActive_score h.sound.formed h.ended (hdeclared hd) hop).mp hid
        obtain ⟨-, c, hc, -⟩ := (h.frozen.active_iff i).mp hi
        have hnode : ∃ n, Network.scoreNode f.graph i = .ok n := by
          unfold Network.scoreNode
          rw [hc]
          exact ⟨_, rfl⟩
        obtain ⟨n, hn⟩ := hnode
        exact ⟨.score n, Outcome.bind_eq_ok.mpr ⟨n, hn, rfl⟩⟩
    | _ => exact ⟨_, rfl⟩

/-- The constraint that an active index stands for, with its effective weight. -/
theorem constraint (h : Origin N settings written chosen f b) {i : Nat}
    (hi : i ∈ f.graph.activeConstraints) : ∃ w c, written[i]? = some w ∧
      f.graph.constraints[i]? = some c ∧ c.ref = w.constraint.ref ∧ c.impact = w.terms.impact ∧
      c.weigher = w.terms.weigher ∧
      c.weight = settings.overrides.effective w.constraint.ref w.weight ∧
      (N.Functional → Unfolds (declaredIn f.graph.declarations) c.scoreDecl w.query) := by
  obtain ⟨hselected, c, hc, -⟩ := (h.frozen.active_iff i).mp hi
  have hcopy := hc
  simp only [h.frozen.constraint, if_pos hselected] at hcopy
  obtain ⟨k, hk, rfl⟩ := Option.map_eq_some_iff.mp hcopy
  have hlt : i < written.length := h.size ▸ (Array.getElem?_eq_some_iff.mp hk).1
  have hw : written[i]? = some written[i] := List.getElem?_eq_getElem hlt
  obtain ⟨k', hk', hrecorded⟩ := h.recorded i _ hw
  obtain rfl := Option.some.inj (hk.symm.trans hk')
  refine ⟨_, _, hw, hc, hrecorded.ref, hrecorded.impact, hrecorded.weigher, ?_, ?_⟩
  · unfold GraphBuilder.reweigh
    rw [hrecorded.ref, hrecorded.weight]
  · rw [h.declared_eq]
    exact hrecorded.unfolds

/-- If nothing was declared in vain, what spreads over the queries of the provider comes to all
operations of the graph. -/
theorem spreads (h : Origin N settings written chosen f b) (hN : N.Functional)
    (hactive : ∀ id < f.graph.size, f.graph.isActive id) {P : Query V → Prop}
    {R : Operation V → Prop} (hspreads : Query.Spreads P R) (hP : ∀ w ∈ written, P w.query)
    {id : DeclId} {c : Candidate V} (hc : declaredIn f.graph.declarations id = some c) :
    R c.operation := by
  obtain ⟨i, hi, k, hk, hdepends⟩ := h.frozen.isActive_iff.mp (hactive id (lt_of_declaredIn hc))
  obtain ⟨w, k', hw, hk', -, -, -, -, hunfolds⟩ := h.constraint hi
  obtain rfl := Option.some.inj (hk.symm.trans hk')
  rw [h.frozen.declarations] at hc hunfolds
  exact (hunfolds hN).spreads hspreads (hP w (List.mem_of_getElem? hw)) hdepends hc

/-- The constraints of the graph weigh their matches as the provider says. -/
theorem weigher (h : Origin N settings written chosen f b) {c : ConstraintDef V S}
    (hc : c ∈ f.graph.constraints) : ∃ w ∈ written, c.weigher = w.terms.weigher := by
  obtain ⟨i, hi⟩ := Array.mem_iff_getElem?.mp hc
  rw [h.frozen.constraint] at hi
  obtain ⟨k, hk, rfl⟩ := Option.map_eq_some_iff.mp hi
  have hlt : i < written.length := h.size ▸ (Array.getElem?_eq_some_iff.mp hk).1
  obtain ⟨k', hk', hrecorded⟩ := h.recorded i _ (List.getElem?_eq_getElem hlt)
  obtain rfl := Option.some.inj (hk.symm.trans hk')
  refine ⟨written[i], List.getElem_mem hlt, ?_⟩
  rw [apply_ite ConstraintDef.weigher, ← hrecorded.weigher]
  exact ite_self k.weigher

/-- The end of an active constraint's stream. -/
theorem scoreDecl (h : Origin N settings written chosen f b) {i : Nat} {c : ConstraintDef V S}
    (hc : f.graph.constraints[i]? = some c) :
    ∃ p w, declaredIn f.graph.declarations c.scoreDecl = some (.score p i w) := by
  rw [h.frozen.constraint] at hc
  obtain ⟨k, hk, rfl⟩ := Option.map_eq_some_iff.mp hc
  obtain ⟨p, w, hp⟩ := h.ended.score i k hk
  rw [apply_ite ConstraintDef.scoreDecl, h.declared_eq]
  exact ⟨p, w, (ite_self k.scoreDecl).symm ▸ hp⟩

/-- A node that scores belongs to the end of its constraint's stream. -/
theorem scoreNode (h : Origin N settings written chosen f b)
    (hc : Network.Compiled f.graph f.domain net) {id : NodeId} {n : ScoreNode V S}
    (hn : net.kindAt id = .score n) : ∃ a c, net.nodes[id]? = some a ∧
      n.constraint ∈ f.graph.activeConstraints ∧ f.graph.constraints[n.constraint]? = some c ∧
      a.decl = c.scoreDecl ∧ n.impact = c.impact ∧ n.weight = c.weight ∧ n.weigher = c.weigher := by
  obtain ⟨a, ha, hk⟩ := Network.node_of_kindAt hn rfl
  obtain ⟨d, hd, hblank, -⟩ := hc.candidate ha
  rw [hn] at hblank
  obtain ⟨hop, c, hconstraint, hfields⟩ := hblank.performs.of_score
  have hactive : f.graph.isActive a.decl := by
    have hmem : a.decl ∈ net.nodes.toList.map (·.decl) :=
      List.mem_map_of_mem (Array.mem_toList_iff.mpr (Array.mem_of_getElem? ha))
    rw [hc.decls] at hmem
    exact (List.mem_filter.mp hmem).2
  rw [h.declared_eq] at hd
  obtain ⟨k, hk, hend⟩ := h.ended.constraint a.decl d _ hd hop
  have hcopy := hconstraint
  rw [h.frozen.constraint, hk, Option.map_some] at hcopy
  refine ⟨a, c, ha, (h.frozen.isActive_score h.sound.formed h.ended hd hop).mp hactive, hconstraint,
    ?_, hfields⟩
  rw [← hend, ← Option.some.inj hcopy, apply_ite ConstraintDef.scoreDecl]
  exact (ite_self k.scoreDecl).symm

theorem scoring (h : Origin N settings written chosen f b)
    (hc : Network.Compiled f.graph f.domain net) : Network.Scoring f.graph net := by
  refine ⟨fun i hi => ?_, fun id n hn => ?_, fun id id' n n' hn hn' heq => ?_⟩
  · obtain ⟨w, c, -, hconstraint, -⟩ := h.constraint hi
    obtain ⟨p, w, hend⟩ := h.scoreDecl hconstraint
    have hactive : f.graph.isActive c.scoreDecl :=
      (h.frozen.isActive_score h.sound.formed h.ended (h.declared_eq ▸ hend) rfl).mpr hi
    obtain ⟨id, a, ha, hdecl⟩ := hc.exists_node (lt_of_declaredIn hend) hactive
    obtain ⟨d, hd, hblank, -⟩ := hc.candidate ha
    obtain rfl := Option.some.inj (hend.symm.trans (hdecl ▸ hd))
    obtain ⟨c', -, hk⟩ := hblank
    exact ⟨id, _, hk, rfl⟩
  · obtain ⟨a, c, -, hactive, -⟩ := h.scoreNode hc hn
    exact hactive
  · obtain ⟨a, c, ha, -, hconstraint, hdecl, -⟩ := h.scoreNode hc hn
    obtain ⟨a', c', ha', -, hconstraint', hdecl', -⟩ := h.scoreNode hc hn'
    rw [heq] at hconstraint
    obtain rfl := Option.some.inj (hconstraint.symm.trans hconstraint')
    exact hc.eq_of_decl ha ha' (hdecl.trans hdecl'.symm)

end Origin

end SessionFactory

end ConstraintScoring
