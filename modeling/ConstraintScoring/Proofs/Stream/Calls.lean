import ConstraintScoring.Proofs.Graph.Decoding
import ConstraintScoring.Proofs.Graph.Growth
import ConstraintScoring.Stream.Factory

/-!
# What the calls on a constraint factory declare

Each call hands out a stream of a declaration that stands for the step it asked for. Streams are
never fore bridges or the ends of streams, and have the width of their declaration.
-/

namespace ConstraintScoring

variable {V S : Type} [Cell V] {N : Naming V} {f f' : ConstraintFactory V S} {s t u : Stream}
  {D D' : Declared V}

/-- A stream that a factory with these declarations may have handed out. -/
def Handed (D : Declared V) (s : Stream) : Prop :=
  ∃ c, D s.decl = some c ∧ c.operation.isOpen ∧ c.width = s.width

omit [Cell V] in
theorem Handed.kept (h : Handed D s) (hd : D.Extends D') : Handed D' s := by
  obtain ⟨c, hc, hplain, hw⟩ := h
  exact ⟨c, hd _ _ hc, hplain, hw⟩

omit [Cell V] in
theorem Handed.plain (h : Handed D s) : D.Plain s.decl := by
  obtain ⟨c, hc, hplain, -⟩ := h
  exact ⟨c, hc, hplain⟩

omit [Cell V] in
theorem Handed.width (h : Handed D s) : D.width s.decl = s.width := by
  obtain ⟨c, hc, -, hw⟩ := h
  unfold Declared.width
  rw [hc]
  exact hw

/-- A stream of the rows of a candidate, from its own declaration or from its aft bridge. -/
structure Stands (D : Declared V) (c : Candidate V) (s : Stream) : Prop where
  width : s.width = c.width
  plain : c.operation.kind.isBridged = false → GraphBuilder.Shares D c s.decl
  bridged : c.operation.kind.isBridged = true →
    ∃ id, GraphBuilder.Shares D c id ∧ D s.decl = some (.aftBridge id c.width)

theorem Stands.handed {g : GraphBuilder V S} (h : g.Sound N) {c : Candidate V}
    (hc : c.operation.Coded N c.key) (hplain : c.operation.isOpen)
    (hs : Stands g.declared c s) : Handed g.declared s := by
  cases hk : c.operation.kind.isBridged with
  | false =>
      obtain ⟨d, hd, hkey, hw, -⟩ := hs.plain hk
      refine ⟨d, hd, ?_, hw.trans hs.width.symm⟩
      have hkind := (h.coded _ d hd).1
      rw [hkey, hc.1] at hkind
      unfold Operation.isOpen at hplain ⊢
      rwa [← hkind]
  | true =>
      obtain ⟨id, -, hb⟩ := hs.bridged hk
      exact ⟨_, hb, rfl, hs.width.symm⟩

/-- A stream computes the query of the candidate that it stands for. -/
theorem Stands.unfolds {g : GraphBuilder V S} (hN : N.Functional) (h : g.Sound N) {c : Candidate V}
    (hc : c.operation.Coded N c.key) (hs : Stands g.declared c s) {qs : List (Query V)} {q : Query V}
    (hqs : List.Forall₂ (Unfolds g.declared) c.key.parents qs) (hq : c.operation.query qs = some q) :
    Unfolds g.declared s.decl q := by
  have hshares : ∀ id, GraphBuilder.Shares g.declared c id → Unfolds g.declared id q := by
    rintro id ⟨d, hd, hkey, -, hsame⟩
    have hquery : d.operation.query = c.operation.query := by
      rcases hsame with rfl | hnamed
      · rfl
      · exact (hkey ▸ h.coded id d hd).query_unique hN hc hnamed
    exact .of_parents hd (hkey ▸ hqs) (hquery ▸ hq)
  cases hk : c.operation.kind.isBridged with
  | false => exact hshares _ (hs.plain hk)
  | true =>
      obtain ⟨id, hid, hb⟩ := hs.bridged hk
      exact .unary hb rfl (hshares id hid) rfl

namespace ConstraintFactory

/-- What a call that hands out a stream may declare: no ends of streams, and sources of classes that
are known. -/
abbrev Streamed (domain : DomainModel V) (c : Candidate V) : Prop :=
  match c.operation with
  | .score _ => False
  | .source type _ => ∃ cl, domain.class? type = some cl
  | _ => True

omit [Cell V] in
theorem Streamed.ne_score {domain : DomainModel V} {c : Candidate V} (h : Streamed domain c) (i : Nat) :
    c.operation ≠ .score i := by
  intro hi
  unfold Streamed at h
  rwa [hi] at h

/-- What a call on a factory leads to that asked for the candidate. -/
structure Declares (N : Naming V) (f : ConstraintFactory V S) (c : Candidate V) (s : Stream)
    (f' : ConstraintFactory V S) : Prop where
  id : f'.id = f.id
  domain : f'.domain = f.domain
  factory : s.factory = f.id
  coded : c.operation.Coded N c.key
  plain : c.operation.isOpen
  grown : GraphBuilder.Grown N (Streamed f.domain) f.graph f'.graph
  complete : f'.graph.Complete
  stands : Stands f'.graph.declared c s

theorem Declares.whole {c : Candidate V} (h : Declares N f c s f') : f'.graph.Whole N :=
  ⟨h.grown.sound, h.complete⟩

omit [Cell V] in
theorem own_passes {α : Type} {x : Declaring V S α} (h : s.factory = f.id) :
    (own s >>= fun _ => x).run.run f = x.run.run f := by
  have hown : (own s : Declaring V S Unit).run.run f = (.ok (), f) := by
    unfold own
    rw [Outcome.run_get_bind, if_neg (not_not_intro h)]
    rfl
  rw [Outcome.run_bind, hown]

omit [Cell V] in
theorem own_refuses {α : Type} {x : Declaring V S α} (h : s.factory ≠ f.id) :
    (own s >>= fun _ => x).run.run f = (.error (.config .differentFactories), f) := by
  have hown : (own s : Declaring V S Unit).run.run f = (.error (.config .differentFactories), f) := by
    unfold own
    rw [Outcome.run_get_bind, if_pos h]
    rfl
  rw [Outcome.run_bind, hown]

omit [Cell V] in
theorem withGraph_run {α : Type} (b : Build V S α) : (withGraph b).run.run f =
    ((b.run.run f.graph).1, { f with graph := (b.run.run f.graph).2 }) := by
  unfold withGraph
  rw [Outcome.run_get_bind]
  rcases hrun : b.run.run f.graph with ⟨_ | _, g⟩
  all_goals
    have hrun : b.run f.graph = _ := hrun
    simp only [hrun]
    rfl

omit [Cell V] in
theorem declare_run {w : Nat} {b : Build V S DeclId} {decl : DeclId} {g : GraphBuilder V S}
    (h : b.run.run f.graph = (.ok decl, g)) : (declare w b : Declaring V S Stream).run.run f =
      (.ok ⟨f.id, decl, w⟩, { f with graph := g }) := by
  unfold declare
  rw [Outcome.run_bind, withGraph_run, h]
  rfl

omit [Cell V] in
theorem classOf_passes {α : Type} {type : String} {c : FactClass V}
    {next : FactClass V → Declaring V S α} (h : f.domain.class? type = some c) :
    (classOf type >>= next).run.run f = (next c).run.run f := by
  have hclass : (classOf type : Declaring V S (FactClass V)).run.run f = (.ok c, f) := by
    unfold classOf
    rw [Outcome.run_get_bind]
    simp only [h]
    rfl
  rw [Outcome.run_bind, hclass]

omit [Cell V] in
theorem classOf_refuses {α : Type} {type : String} {next : FactClass V → Declaring V S α}
    (h : f.domain.class? type = none) :
    (classOf type >>= next).run.run f = (.error (.config (.unknownClass type)), f) := by
  have hclass : (classOf type : Declaring V S (FactClass V)).run.run f =
      (.error (.config (.unknownClass type)), f) := by
    unfold classOf
    rw [Outcome.run_get_bind]
    simp only [h]
    rfl
  rw [Outcome.run_bind, hclass]

theorem source_run {type : String} {c : FactClass V} (includeUnassigned : Bool)
    (h : f.graph.Whole N) (hc : f.domain.class? type = some c) :
    ∃ s f', (source type includeUnassigned).run.run f = (.ok s, f') ∧
      Declares N f (.source type (includeUnassigned || !c.canBeUnassigned)) s f' := by
  have hready : GraphBuilder.Ready N f.graph
      (.source type (includeUnassigned || !c.canBeUnassigned)) := by
    refine ⟨⟨rfl, rfl⟩, ⟨rfl, rfl⟩, rfl, fun n hn => ?_, fun n hn => ?_⟩ <;>
      simp [Candidate.source] at hn
  obtain ⟨decl, g, hshare, hgrown, hshares, hcompletes⟩ :=
    GraphBuilder.share_run (P := Streamed f.domain) h.toSound hready ⟨c, hc⟩
  refine ⟨_, _, (classOf_passes hc).trans (declare_run hshare), rfl, rfl, rfl, hready.coded, rfl,
    hgrown, h.complete.completes (hcompletes rfl), ⟨rfl, fun _ => hshares, nofun⟩⟩

section Numbered

variable {g g' : GraphBuilder V S} {c : Candidate V} {x : Numbering (Candidate V)} {id : DeclId}
  {domain : DomainModel V}

/-- A candidate whose functions the builder numbers. -/
structure Offered (N : Naming V) (domain : DomainModel V) (g : GraphBuilder V S)
    (x : Numbering (Candidate V)) (c : Candidate V) : Prop where
  run : (x.run g.nextFunction).1 = c
  numbered : Numbered g.nextFunction (x.run g.nextFunction).2 c.key.params
  shape : g.declared.Shape c.key.parents c.width c.operation
  coded : c.operation.Coded N c.key
  width : c.width = g.declared.keyWidth c.key
  streamed : Streamed domain c

/-- An offered candidate gets its numbers and is handed on. -/
theorem Offered.run_numbered {next : Candidate V → Build V S DeclId} (h : g.Sound N)
    (hc : Offered N domain g x c) : ∃ g₁, GraphBuilder.Grown N (Streamed domain) g g₁ ∧
      GraphBuilder.Ready N g₁ c ∧ g₁.declarations = g.declarations ∧
      (do next (← GraphBuilder.numbered x)).run.run g = (next c).run.run g₁ := by
  obtain ⟨hx, hn, hshape, hcoded, hwidth, -⟩ := hc
  obtain ⟨hgrown, hready⟩ := h.numbered hn hshape hcoded hwidth
  refine ⟨_, hgrown, hready, rfl, ?_⟩
  rw [Outcome.run_bind, GraphBuilder.numbered_run, hx]

theorem numbered_share_run (h : g.Whole N) (hc : Offered N domain g x c)
    (hplain : c.operation.kind.isBridged = false) :
    ∃ id g', (do GraphBuilder.share (← GraphBuilder.numbered x)).run.run g = (.ok id, g') ∧
      GraphBuilder.Grown N (Streamed domain) g g' ∧ g'.Complete ∧
        GraphBuilder.Shares g'.declared c id := by
  obtain ⟨g₁, hgrown, hready, hsame, hrun⟩ := hc.run_numbered h.toSound
  obtain ⟨id, g', hshare, hgrown', hshares, hcompletes⟩ :=
    GraphBuilder.share_run hgrown.sound hready hc.streamed
  refine ⟨id, g', hrun.trans hshare, hgrown.trans hgrown', ?_, hshares⟩
  have hcomplete : g₁.Complete := by
    unfold GraphBuilder.Complete
    rw [hsame]
    exact h.complete
  exact hcomplete.completes (hcompletes hplain)

theorem numbered_shareBridged_run (h : g.Whole N) (hc : Offered N domain g x c)
    (hbridged : c.operation.kind.isBridged) :
    ∃ id g', (do GraphBuilder.shareBridged (← GraphBuilder.numbered x)).run.run g = (.ok id, g') ∧
      GraphBuilder.Grown N (Streamed domain) g g' ∧ g'.Complete ∧
        ∃ own, GraphBuilder.Shares g'.declared c own ∧
          g'.declared id = some (.aftBridge own c.width) := by
  obtain ⟨g₁, hgrown, hready, hsame, hrun⟩ := hc.run_numbered h.toSound
  have hcomplete : g₁.Complete := by
    unfold GraphBuilder.Complete
    rw [hsame]
    exact h.complete
  obtain ⟨id, g', hshare, hgrown', hcompletes, hid⟩ := GraphBuilder.shareBridged_run
    ⟨hgrown.sound, hcomplete⟩ hready hc.streamed (fun _ _ => trivial) hbridged
  exact ⟨id, g', hrun.trans hshare, hgrown.trans hgrown', hcomplete.completes hcompletes, hid⟩

end Numbered

theorem filter_run {accepts : RowFunction V Bool} (h : f.graph.Whole N)
    (hs : Handed f.graph.declared s) (hown : s.factory = f.id) (hf : accepts.Respects N.test) :
    ∃ u f', (filter s accepts).run.run f = (.ok u, f') ∧ Declares N f
      ((Candidate.filter s.decl accepts s.width).run f.graph.nextFunction).1 u f' := by
  obtain ⟨hcodes, hn⟩ := RowFunction.param_spec hf f.graph.nextFunction
  have hoffered : Offered N f.domain f.graph (Candidate.filter s.decl accepts s.width)
      ((Candidate.filter s.decl accepts s.width).run f.graph.nextFunction).1 :=
    ⟨rfl, hn, ⟨s.decl, rfl, hs.plain, hs.width.symm⟩, ⟨rfl, _, rfl, hcodes⟩, hs.width.symm,
      trivial⟩
  obtain ⟨id, g, hrun, hgrown, hcomplete, hshares⟩ := numbered_share_run h hoffered rfl
  exact ⟨_, _, (own_passes hown).trans (declare_run hrun), rfl, rfl, rfl, hoffered.coded, rfl,
    hgrown, hcomplete, ⟨rfl, fun _ => hshares, nofun⟩⟩

theorem map_run {columns : List (RowFunction V V)} (h : f.graph.Whole N)
    (hs : Handed f.graph.declared s) (hown : s.factory = f.id)
    (hf : ∀ c ∈ columns, c.Respects N.cell) :
    ∃ u f', (map s columns).run.run f = (.ok u, f') ∧ Declares N f
      ((Candidate.map s.decl columns).run f.graph.nextFunction).1 u f' := by
  obtain ⟨hcodes, hn⟩ := RowFunction.params_spec hf f.graph.nextFunction
  have hoffered : Offered N f.domain f.graph (Candidate.map s.decl columns)
      ((Candidate.map s.decl columns).run f.graph.nextFunction).1 := by
    refine ⟨rfl, hn, ⟨s.decl, rfl, hs.plain, (List.length_map _).symm⟩, ⟨rfl, hcodes⟩, ?_,
      trivial⟩
    exact (List.length_map _).symm.trans hcodes.length_eq.symm
  obtain ⟨id, g, hrun, hgrown, hcomplete, own, hshares, hbridge⟩ :=
    numbered_shareBridged_run h hoffered rfl
  exact ⟨_, _, (own_passes hown).trans (declare_run hrun), rfl, rfl, rfl, hoffered.coded, rfl,
    hgrown, hcomplete, ⟨rfl, nofun, fun _ => ⟨own, hshares, hbridge⟩⟩⟩

theorem flattenLast_run {expand : RowFunction V (List V)} (h : f.graph.Whole N)
    (hs : Handed f.graph.declared s) (hown : s.factory = f.id) (hf : expand.Respects N.items) :
    ∃ u f', (flattenLast s expand).run.run f = (.ok u, f') ∧ Declares N f
      ((Candidate.flattenLast s.decl expand s.width).run f.graph.nextFunction).1 u f' := by
  obtain ⟨hcodes, hn⟩ := RowFunction.param_spec hf f.graph.nextFunction
  have hoffered : Offered N f.domain f.graph (Candidate.flattenLast s.decl expand s.width)
      ((Candidate.flattenLast s.decl expand s.width).run f.graph.nextFunction).1 := by
    refine ⟨rfl, hn, ⟨s.decl, rfl, hs.plain, hs.width.symm, fun row items hitems => ?_⟩,
      ⟨rfl, _, expand, rfl, hcodes, rfl⟩, hs.width.symm, trivial⟩
    rintro rfl
    cases hitems
  obtain ⟨id, g, hrun, hgrown, hcomplete, own, hshares, hbridge⟩ :=
    numbered_shareBridged_run h hoffered rfl
  exact ⟨_, _, (own_passes hown).trans (declare_run hrun), rfl, rfl, rfl, hoffered.coded, rfl,
    hgrown, hcomplete, ⟨rfl, nofun, fun _ => ⟨own, hshares, hbridge⟩⟩⟩

omit [Cell V] in
theorem group_refuses {parts : List (GroupPart V)} {problem : ConfigProblem}
    (hown : s.factory = f.id) (hcheck : GroupPart.check parts = .error problem) :
    (group s parts : Declaring V S Stream).run.run f = (.error (.config problem), f) := by
  unfold group
  rw [own_passes hown, hcheck]
  rfl

theorem group_run {parts : List (GroupPart V)} (h : f.graph.Whole N)
    (hs : Handed f.graph.declared s) (hown : s.factory = f.id) (hf : ∀ p ∈ parts, p.Respects N)
    (hcheck : GroupPart.check parts = .ok ()) :
    ∃ u f', (group s parts).run.run f = (.ok u, f') ∧ Declares N f
      ((Candidate.group s.decl parts).run f.graph.nextFunction).1 u f' := by
  obtain ⟨hcoded, hn⟩ := GroupPart.allParams_spec hf f.graph.nextFunction
  have hoffered : Offered N f.domain f.graph (Candidate.group s.decl parts)
      ((Candidate.group s.decl parts).run f.graph.nextFunction).1 :=
    ⟨rfl, hn, ⟨s.decl, rfl, hs.plain, GroupPart.length_keys_collectors parts⟩,
      ⟨rfl, parts, hcoded, rfl, rfl⟩, hcoded.countP, trivial⟩
  obtain ⟨id, g, hrun, hgrown, hcomplete, own, hshares, hbridge⟩ :=
    numbered_shareBridged_run h hoffered rfl
  refine ⟨⟨f.id, id, parts.length⟩, { f with graph := g }, ?_, rfl, rfl, rfl, hoffered.coded, rfl,
    hgrown, hcomplete, ⟨rfl, nofun, fun _ => ⟨own, hshares, hbridge⟩⟩⟩
  unfold group
  rw [own_passes hown, hcheck]
  exact declare_run hrun

omit [Cell V] in
theorem constraint_run {ref : ConstraintRef} {weight : S} {terms : ConstraintTerms V S}
    (hown : s.factory = f.id) : (constraint s ref weight terms).run.run f =
      match (GraphBuilder.addConstraint s.decl ⟨ref, terms.impact, weight, terms.weigher,
        terms.justifier, terms.indicter, s.decl⟩).run.run f.graph with
      | (.ok index, g) => (.ok ⟨f.id, index, ref⟩, { f with graph := g })
      | (.error e, g) => (.error e, { f with graph := g }) := by
  unfold constraint
  rw [own_passes hown, Outcome.run_bind, withGraph_run]
  rcases (GraphBuilder.addConstraint s.decl ⟨ref, terms.impact, weight, terms.weigher,
    terms.justifier, terms.indicter, s.decl⟩).run.run f.graph with ⟨e | index, g⟩ <;> rfl

omit [Cell V] in
theorem constraint_of_run {ref : ConstraintRef} {weight : S} {terms : ConstraintTerms V S}
    {c : Constraint} (hrun : (constraint s ref weight terms).run.run f = (.ok c, f')) :
    ∃ index g, (GraphBuilder.addConstraint s.decl ⟨ref, terms.impact, weight, terms.weigher,
        terms.justifier, terms.indicter, s.decl⟩).run.run f.graph = (.ok index, g) ∧
      c = ⟨f.id, index, ref⟩ ∧ f' = { f with graph := g } := by
  by_cases hown : s.factory = f.id
  · rw [constraint_run hown] at hrun
    split at hrun
    · rename_i index g hadd
      obtain ⟨rfl, rfl⟩ := Outcome.answer_inj hrun
      exact ⟨index, g, hadd, rfl, rfl⟩
    · cases (Prod.mk.inj hrun).1
  · rw [constraint, own_refuses hown] at hrun
    cases (Prod.mk.inj hrun).1

/-- The fore bridges behind which a step with two inputs finds its rows. -/
structure Bridged (D : Declared V) (s t : Stream) (l r : DeclId) : Prop where
  left : D l = some (.foreBridge s.decl .left s.width)
  right : D r = some (.foreBridge t.decl .right t.width)

namespace Bridged

variable {l r : DeclId}

omit [Cell V] in
theorem kept (h : Bridged D s t l r) (hd : D.Extends D') : Bridged D' s t l r :=
  ⟨hd _ _ h.left, hd _ _ h.right⟩

omit [Cell V] in
theorem fore (h : Bridged D s t l r) : D.Fore l .left ∧ D.Fore r .right :=
  ⟨⟨_, h.left, rfl⟩, ⟨_, h.right, rfl⟩⟩

omit [Cell V] in
theorem width (h : Bridged D s t l r) : D.width l = s.width ∧ D.width r = t.width := by
  unfold Declared.width
  rw [h.left, h.right]
  exact ⟨rfl, rfl⟩

end Bridged

/-- Two inputs are put behind fore bridges. -/
theorem bridges_run (domain : DomainModel V) {g : GraphBuilder V S}
    (b : DeclId → DeclId → Build V S DeclId) (h : g.Whole N) (hs : Handed g.declared s)
    (ht : Handed g.declared t) :
    ∃ l r g₂, GraphBuilder.Grown N (Streamed domain) g g₂ ∧ g₂.Whole N ∧
      Bridged g₂.declared s t l r ∧
      (do
        let left ← GraphBuilder.foreBridge s.decl .left
        let right ← GraphBuilder.foreBridge t.decl .right
        b left right).run.run g = (b l r).run.run g₂ := by
  obtain ⟨l, g₁, hl, hgrown, hcompletes, hleft⟩ := GraphBuilder.foreBridge_run
    (P := Streamed domain) h.toSound .left hs.plain fun w => trivial
  have ht₁ := ht.kept hgrown.kept
  obtain ⟨r, g₂, hr, hgrown', hcompletes', hright⟩ := GraphBuilder.foreBridge_run
    (P := Streamed domain) hgrown.sound .right ht₁.plain fun w => trivial
  rw [hs.width] at hleft
  rw [ht₁.width] at hright
  refine ⟨l, r, g₂, hgrown.trans hgrown',
    ⟨hgrown'.sound, h.complete.completes (hcompletes.trans hcompletes')⟩,
    ⟨hgrown'.kept _ _ hleft, hright⟩, ?_⟩
  rw [Outcome.run_bind, hl]
  simp only
  rw [Outcome.run_bind, hr]

theorem concat_run (h : f.graph.Whole N) (hs : Handed f.graph.declared s)
    (ht : Handed f.graph.declared t) (howns : s.factory = f.id) (hownt : t.factory = f.id)
    (hwidths : s.width = t.width) : ∃ u f' l r, (concat s t).run.run f = (.ok u, f') ∧
      Bridged f'.graph.declared s t l r ∧ Declares N f (.concat l r s.width) u f' := by
  obtain ⟨l, r, g₂, hgrown, hwhole, hbridged, hrun⟩ := bridges_run f.domain
    (fun l r => GraphBuilder.shareBridged (.concat l r s.width)) h hs ht
  have hready : GraphBuilder.Ready N g₂ (.concat l r s.width) := by
    refine ⟨⟨l, r, rfl, hbridged.fore.1, hbridged.fore.2, hbridged.width.1.symm, ?_⟩, ⟨rfl, rfl⟩,
      hbridged.width.1.symm, fun n hn => ?_, fun n hn => ?_⟩
    · exact hwidths.trans hbridged.width.2.symm
    · cases hn
    · cases hn
  obtain ⟨id, g, hshare, hgrown', hcompletes, own, hshares, hbridge⟩ :=
    GraphBuilder.shareBridged_run (P := Streamed f.domain) hwhole hready trivial
      (fun _ _ => trivial) rfl
  exact ⟨_, _, l, r, (own_passes howns).trans ((own_passes hownt).trans
    (declare_run (hrun.trans hshare))), hbridged.kept hgrown'.kept, rfl, rfl, rfl, hready.coded, rfl,
    hgrown.trans hgrown', hwhole.complete.completes hcompletes,
    ⟨rfl, nofun, fun _ => ⟨own, hshares, hbridge⟩⟩⟩

theorem join_run {joiner : Joiner V} (h : f.graph.Whole N) (hs : Handed f.graph.declared s)
    (ht : Handed f.graph.declared t) (howns : s.factory = f.id) (hownt : t.factory = f.id)
    (hj : joiner.Respects N) : ∃ u f' l r n, (join s t joiner).run.run f = (.ok u, f') ∧
      Bridged f'.graph.declared s t l r ∧
        Declares N f ((Candidate.join l r joiner (s.width + t.width)).run n).1 u f' := by
  obtain ⟨l, r, g₂, hgrown, hwhole, hbridged, hrun⟩ := bridges_run f.domain
    (fun l r => do
      let c ← GraphBuilder.numbered (Candidate.join l r joiner (s.width + t.width))
      GraphBuilder.shareBridged c) h hs ht
  obtain ⟨hcoded, hn⟩ := Joiner.params_spec hj g₂.nextFunction
  have hwidths : s.width + t.width = g₂.declared.width l + g₂.declared.width r := by
    rw [hbridged.width.1, hbridged.width.2]
  have hoffered : Offered N f.domain g₂ (Candidate.join l r joiner (s.width + t.width))
      ((Candidate.join l r joiner (s.width + t.width)).run g₂.nextFunction).1 := by
    refine ⟨rfl, hn, ⟨l, r, rfl, hbridged.fore.1, hbridged.fore.2, hwidths⟩,
      ⟨rfl, joiner, hcoded, rfl⟩, ?_, trivial⟩
    change s.width + t.width = ([l, r].map g₂.declared.width).sum
    simp [hwidths]
  obtain ⟨id, g, hshare, hgrown', hcomplete, own, hshares, hbridge⟩ :=
    numbered_shareBridged_run hwhole hoffered rfl
  exact ⟨_, _, l, r, _, (own_passes howns).trans ((own_passes hownt).trans
    (declare_run (hrun.trans hshare))), hbridged.kept hgrown'.kept, rfl, rfl, rfl, hoffered.coded, rfl,
    hgrown.trans hgrown', hcomplete, ⟨rfl, nofun, fun _ => ⟨own, hshares, hbridge⟩⟩⟩

theorem existence_run {shouldExist : Bool} {joiner : Joiner V} (h : f.graph.Whole N)
    (hs : Handed f.graph.declared s) (ht : Handed f.graph.declared t) (howns : s.factory = f.id)
    (hownt : t.factory = f.id) (hj : joiner.Respects N) :
    ∃ u f' l r n, (existence shouldExist s t joiner).run.run f = (.ok u, f') ∧
      Bridged f'.graph.declared s t l r ∧
        Declares N f ((Candidate.exists l r shouldExist joiner s.width).run n).1 u f' := by
  obtain ⟨l, r, g₂, hgrown, hwhole, hbridged, hrun⟩ := bridges_run f.domain
    (fun l r => do
      let c ← GraphBuilder.numbered (Candidate.exists l r shouldExist joiner s.width)
      GraphBuilder.shareBridged c) h hs ht
  obtain ⟨hcoded, hn⟩ := Joiner.params_spec hj g₂.nextFunction
  have hoffered : Offered N f.domain g₂ (Candidate.exists l r shouldExist joiner s.width)
      ((Candidate.exists l r shouldExist joiner s.width).run g₂.nextFunction).1 := by
    refine ⟨rfl, hn.cons fun n hn => ?_, ⟨l, r, rfl, hbridged.fore.1, hbridged.fore.2,
      hbridged.width.1.symm⟩, ⟨rfl, joiner, _, rfl, hcoded, rfl⟩, hbridged.width.1.symm,
      trivial⟩
    cases hn
  obtain ⟨id, g, hshare, hgrown', hcomplete, own, hshares, hbridge⟩ :=
    numbered_shareBridged_run hwhole hoffered rfl
  exact ⟨_, _, l, r, _, (own_passes howns).trans ((own_passes hownt).trans
    (declare_run (hrun.trans hshare))), hbridged.kept hgrown'.kept, rfl, rfl, rfl, hoffered.coded, rfl,
    hgrown.trans hgrown', hcomplete, ⟨rfl, nofun, fun _ => ⟨own, hshares, hbridge⟩⟩⟩

end ConstraintFactory

end ConstraintScoring
