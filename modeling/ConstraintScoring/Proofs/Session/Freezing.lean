import ConstraintScoring.Proofs.Session.Providers

/-!
# Freezing and compiling what a provider declares

Constraints may be chosen in any order and more than once. The active ones among them are those with
a weight other than zero, and exactly what their ends depend on becomes nodes, linked as it was
declared.
-/

namespace ConstraintScoring

variable {V S : Type}

/-- Picking entries by their index, and reading them, is picking and reading entries. -/
theorem filterMap_filter_range {α β : Type} (p : α → Bool) (r : α → β) (xs : List α) :
    ((List.range xs.length).filter fun i => xs[i]?.any p).filterMap (fun i => xs[i]?.map r) =
      (xs.filter p).map r := by
  induction xs using List.reverseRecOn with
  | nil => rfl
  | append_singleton xs x ih =>
      have hbefore : ∀ i ∈ List.range xs.length, (xs ++ [x])[i]? = xs[i]? := fun i hi =>
        List.getElem?_append_left (List.mem_range.mp hi)
      have hlast : (xs ++ [x])[xs.length]? = some x := List.getElem?_concat_length
      rw [List.length_append, List.length_singleton, List.range_succ, List.filter_append,
        List.filterMap_append, List.filter_append, List.map_append, ← ih]
      congr 1
      · rw [List.filter_congr fun i hi => by rw [hbefore i hi]]
        refine List.filterMap_congr fun i hi => ?_
        rw [hbefore i (List.mem_of_mem_filter hi)]
      · by_cases hx : p x <;> simp [hx]

/-- Whether a finished constraint is active: it was chosen, and its effective weight is not zero. -/
def Written.counts [Score S] (chosen : List Constraint) (overrides : WeightOverrides S)
    (w : Written V S) : Bool :=
  chosen.contains w.constraint &&
    !Score.isZero (overrides.effective w.constraint.ref w.weight)

/-- What freezing makes of the constraints that a provider has finished, some of which are
chosen. -/
structure FrozenFor [Score S] (written : List (Written V S)) (chosen : List Constraint)
    (overrides : WeightOverrides S) (g : DeclarationGraph V S) : Prop where
  activeConstraints : g.activeConstraints =
    (List.range written.length).filter fun i => written[i]?.any (·.counts chosen overrides)
  activeRefs : g.activeRefs = (written.filter (·.counts chosen overrides)).map (·.constraint.ref)
  constraint : ∀ (i : Nat) w, i ∈ g.activeConstraints → written[i]? = some w →
    ∃ c p width, g.constraints[i]? = some c ∧ c.ref = w.constraint.ref ∧
      c.weight = overrides.effective w.constraint.ref w.weight ∧
      declaredIn g.declarations c.scoreDecl = some (.score p i width)
  /-- A declaration is active if the end of an active constraint depends on it. -/
  isActive : ∀ id, g.isActive id ↔ ∃ i ∈ g.activeConstraints, ∃ c, g.constraints[i]? = some c ∧
    DependsOn (declaredIn g.declarations) c.scoreDecl id
  owners_sorted : ∀ id, (g.ownersOf id).Pairwise (· < ·)
  mem_owners : ∀ (i : Nat) id, i ∈ g.ownersOf id ↔ i ∈ g.activeConstraints ∧
    ∃ c, g.constraints[i]? = some c ∧ DependsOn (declaredIn g.declarations) c.scoreDecl id

/-- One node for each active declaration, linked to the nodes of its active children. -/
structure Network.Mirrors (g : DeclarationGraph V S) (net : Network V S) : Prop where
  decls : net.nodes.toList.map (·.decl) = (List.range g.size).filter g.isActive
  children : ∀ (i : NodeId) a, net.nodes[i]? = some a → a.children.Nodup ∧ ∀ j, j ∈ a.children ↔
    ∃ b c, net.nodes[j]? = some b ∧ declaredIn g.declarations b.decl = some c ∧
      a.decl ∈ c.key.parents

variable [Cell V] [Score S] {N : Naming V} {settings : FactorySettings S}
  {written : List (Written V S)} {chosen : List Constraint} {f : SessionFactory V S}
  {b : GraphBuilder V S}

theorem SessionFactory.Origin.mirrors (h : Origin N settings written chosen f b)
    {net : Network V S} (hnet : Network.compile f.graph f.domain = .ok net) :
    net.Mirrors f.graph := by
  have hc := Network.compile_spec hnet
  refine ⟨hc.decls, fun i a ha => ?_⟩
  obtain ⟨d, hd, -⟩ := hc.node i a ha
  obtain ⟨hnodup, hmem⟩ := hc.children i a d ha hd
  refine ⟨hnodup (h.formed.children_nodup a.decl d hd), fun j => ?_⟩
  rw [hmem]
  simp only [h.formed.mem_children a.decl d hd, exists_and_left]

theorem SessionFactory.Origin.index_mem (h : Origin N settings written chosen f b)
    (hchosen : ∀ k ∈ chosen, ∃ w ∈ written, w.constraint = k) {i : Nat} {w : Written V S}
    (hw : written[i]? = some w) : i ∈ chosen.map (·.index) ↔ w.constraint ∈ chosen := by
  have hindex : ∀ {j : Nat} {w' : Written V S}, written[j]? = some w' → w'.constraint.index = j :=
    fun hw' => by
      obtain ⟨k, -, hrecorded⟩ := h.recorded _ _ hw'
      exact hrecorded.index
  rw [List.mem_map]
  constructor
  · rintro ⟨k, hk, rfl⟩
    obtain ⟨w', hw', rfl⟩ := hchosen k hk
    obtain ⟨j, hj⟩ := List.mem_iff_getElem?.mp hw'
    rw [hindex hj, hj] at hw
    rwa [← Option.some.inj hw]
  · exact fun hmem => ⟨w.constraint, hmem, hindex hw⟩

/-- The active constraints are the chosen ones that weigh anything. -/
theorem SessionFactory.Origin.mem_active (h : Origin N settings written chosen f b)
    (hchosen : ∀ k ∈ chosen, ∃ w ∈ written, w.constraint = k) (i : Nat) :
    i ∈ f.graph.activeConstraints ↔ i ∈ (List.range written.length).filter fun i =>
      written[i]?.any (·.counts chosen settings.overrides) := by
  rw [List.mem_filter, List.mem_range, h.frozen.active_iff]
  constructor
  · rintro ⟨hselected, c, hc, hweight⟩
    obtain ⟨w, c', hw, hc', -, -, -, heffective, -⟩ :=
      h.constraint ((h.frozen.active_iff i).mpr ⟨hselected, c, hc, hweight⟩)
    obtain rfl := Option.some.inj (hc.symm.trans hc')
    refine ⟨(List.getElem?_eq_some_iff.mp hw).1, ?_⟩
    rw [hw, Option.any_some, Written.counts, ← heffective, hweight, Bool.not_false, Bool.and_true,
      List.contains_iff_mem]
    exact (h.index_mem hchosen hw).mp hselected
  · rintro ⟨hlt, hcounts⟩
    have hw := List.getElem?_eq_getElem hlt
    rw [hw, Option.any_some, Written.counts, Bool.and_eq_true, List.contains_iff_mem,
      Bool.not_eq_true'] at hcounts
    have hselected := (h.index_mem hchosen hw).mpr hcounts.1
    obtain ⟨k, hk, hrecorded⟩ := h.recorded i _ hw
    refine ⟨hselected, GraphBuilder.reweigh settings.overrides k, ?_, ?_⟩
    · rw [h.frozen.constraint, hk, Option.map_some, if_pos hselected]
    · unfold GraphBuilder.reweigh
      rw [hrecorded.ref, hrecorded.weight]
      exact hcounts.2

theorem SessionFactory.Origin.frozenFor (h : Origin N settings written chosen f b)
    (hchosen : ∀ k ∈ chosen, ∃ w ∈ written, w.constraint = k)
    (hfreeze : b.freeze (chosen.map (·.index)) settings.overrides = .ok f.graph) :
    FrozenFor written chosen settings.overrides f.graph := by
  have hactive : f.graph.activeConstraints = (List.range written.length).filter fun i =>
      written[i]?.any (·.counts chosen settings.overrides) :=
    h.frozen.active_sorted.eq_of_mem_iff (List.pairwise_lt_range.filter _) (h.mem_active hchosen)
  have hdeclared : declaredIn b.declarations = declaredIn f.graph.declarations := by
    rw [h.frozen.declarations]
  refine ⟨hactive, ?_, fun i w hi hw => ?_, fun id => ?_, GraphBuilder.owners_sorted hfreeze
    h.sound.formed h.ended, fun i id => ?_⟩
  · rw [← filterMap_filter_range, ← hactive]
    refine List.filterMap_congr fun i hi => ?_
    obtain ⟨w, c, hw, hc, href, -⟩ := h.constraint hi
    rw [DeclarationGraph.refOf?, hc, hw, Option.map_some, Option.map_some, href]
  · obtain ⟨w', c, hw', hc, href, -, -, hweight, -⟩ := h.constraint hi
    obtain rfl := Option.some.inj (hw.symm.trans hw')
    obtain ⟨p, width, hend⟩ := h.scoreDecl hc
    exact ⟨c, p, width, hc, href, hweight, hend⟩
  · rw [← hdeclared]
    exact h.frozen.isActive_iff
  · rw [← hdeclared]
    exact h.frozen.mem_owners i id

namespace Provided

variable {id : Nat} {domain : DomainModel V} {c : ConstraintFactory V S}
  {streams : List (Stream × Query V)}

omit [Score S] in
/-- Finished constraints are the factory's own. -/
theorem own (h : Provided N id domain c streams written) :
    ∀ w ∈ written, w.constraint.factory = id := by
  induction h with
  | new => exact fun w hw => (by cases hw)
  | stream _ _ _ _ _ ih => exact ih
  | constraint h _ hrun ih =>
      intro w hw
      rcases List.mem_append.mp hw with hw | hw
      · exact ih w hw
      · obtain ⟨index, g, -, rfl, -⟩ := ConstraintFactory.constraint_of_run hrun
        obtain rfl := List.mem_singleton.mp hw
        exact h.sound.id

/-- Finished constraints can be chosen. -/
theorem freeze_eq (h : Provided N id domain c streams written)
    (hchosen : ∀ k ∈ chosen, ∃ w ∈ written, w.constraint = k) (overrides : WeightOverrides S) :
    c.freeze chosen overrides = c.graph.freeze (chosen.map (·.index)) overrides ∧
      ∀ i ∈ chosen.map (·.index), i < c.graph.constraints.size := by
  constructor
  · have hnone : chosen.find? (·.factory != c.id) = none := by
      rw [List.find?_eq_none]
      intro k hk
      obtain ⟨w, hw, rfl⟩ := hchosen k hk
      rw [h.own w hw, h.sound.id]
      simp
    unfold ConstraintFactory.freeze
    rw [hnone]
  · intro i hi
    obtain ⟨k, hk, rfl⟩ := List.mem_map.mp hi
    obtain ⟨w, hw, rfl⟩ := hchosen k hk
    obtain ⟨j, hj⟩ := List.mem_iff_getElem?.mp hw
    obtain ⟨k, hk, hrecorded⟩ := h.sound.recorded j w hj
    exact hrecorded.index ▸ (Array.getElem?_eq_some_iff.mp hk).1

/-- Whichever of the constraints that a provider has finished are chosen, in whatever order and
however often, the graph is the same one, and it can be compiled. -/
theorem freezes (h : Provided N id domain c streams written)
    (hchosen : ∀ k ∈ chosen, ∃ w ∈ written, w.constraint = k) (overrides : WeightOverrides S) :
    ∃ g, (∀ chosen', (∀ k, k ∈ chosen' ↔ k ∈ chosen) → c.freeze chosen' overrides = .ok g) ∧
      g.declarations = c.graph.declarations ∧ FrozenFor written chosen overrides g ∧
        ∃ net, Network.compile g domain = .ok net ∧ net.Mirrors g := by
  obtain ⟨hfreeze, hlt⟩ := h.freeze_eq hchosen overrides
  obtain ⟨g, hg⟩ := GraphBuilder.freeze_ok overrides hlt
  have hsound := h.sound
  have horigin : SessionFactory.Origin N ⟨overrides, .nonReproducible, false⟩ written chosen
      ⟨g, domain, .nonReproducible, false⟩ c.graph :=
    ⟨hsound.graph.toSound, hsound.ended, hsound.domain ▸ hsound.covers,
      freeze_spec hg hsound.graph.formed hsound.ended, hsound.size, hsound.recorded⟩
  obtain ⟨net, hnet⟩ := Network.compile_ok horigin.compilable
  refine ⟨g, fun chosen' hsame => ?_, horigin.frozen.declarations, horigin.frozenFor hchosen hg, net,
    hnet, horigin.mirrors hnet⟩
  have hchosen' : ∀ k ∈ chosen', ∃ w ∈ written, w.constraint = k :=
    fun k hk => hchosen k ((hsame k).mp hk)
  rw [(h.freeze_eq hchosen' overrides).1, ← hg]
  refine GraphBuilder.freeze_congr (fun i => ?_) hlt
  simp only [List.mem_map, hsame]

end Provided

omit [Score S] in
/-- What a provider leaves when it has come to an end. -/
theorem Declaring.Provides.left {α : Type} {domain : DomainModel V} {provider : Declaring V S α}
    {Q : α → List (Stream × Query V) → List (Written V S) → Prop}
    (h : Provides N domain [] [] provider Q) (id : Nat)
    (hok : (provider.run.run (.new id domain)).1.toOption.isSome) :
    ∃ c a streams written, Provided N id domain c streams written ∧ Q a streams written := by
  obtain ⟨streams, written, hprovided, hQ⟩ := h id _ _ (provider.run.run (.new id domain)).2 .new
    (Prod.ext (Outcome.eq_ok_get hok) rfl)
  exact ⟨_, _, streams, written, hprovided, hQ⟩

/-- The constraints of the coins, one of them chosen twice and the other one without weight. -/
theorem Provided.freezes_coins : ∃ (c : ConstraintFactory Coin SimpleScore) (k l : Constraint)
    (g : DeclarationGraph Coin SimpleScore) (net : Network Coin SimpleScore),
    c.freeze [l, k, l] (.ofList [("worths", Score.zero)]) = .ok g ∧
      c.freeze [k, l] (.ofList [("worths", Score.zero)]) = .ok g ∧
      FrozenFor [⟨k, Coin.pairs, SimpleScore.one, Coin.pairTerms⟩,
        ⟨l, Coin.worths, SimpleScore.one, Coin.worthTerms⟩] [k, l]
        (.ofList [("worths", Score.zero)]) g ∧
      Network.compile g Coin.domain = .ok net ∧ net.Mirrors g := by
  obtain ⟨c, -, streams, written, hprovided, k, l, rfl⟩ :=
    Coin.provider_provides.left 0 (by decide +kernel)
  have hchosen : ∀ m ∈ [k, l], ∃ w ∈ ([⟨k, Coin.pairs, SimpleScore.one, Coin.pairTerms⟩,
      ⟨l, Coin.worths, SimpleScore.one, Coin.worthTerms⟩] : List (Written Coin SimpleScore)),
      w.constraint = m := by
    simp
  obtain ⟨g, hfreeze, -, hfrozen, net, hnet, hmirrors⟩ :=
    hprovided.freezes hchosen (.ofList [("worths", Score.zero)])
  exact ⟨c, k, l, g, net, hfreeze [l, k, l] (by simp [or_comm]), hfreeze [k, l] (by simp), hfrozen,
    hnet, hmirrors⟩

end ConstraintScoring
