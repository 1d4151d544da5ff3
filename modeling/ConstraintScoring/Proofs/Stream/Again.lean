import ConstraintScoring.Proofs.Graph.Again
import ConstraintScoring.Proofs.Stream.Calls

/-!
# Making a call again

A call whose functions go by names hands out the same stream when it is made again, and declares
nothing, whatever other calls were made in the meantime.
-/

namespace ConstraintScoring.ConstraintFactory

variable {V S α β : Type} [Cell V] {N : Naming V} {f f' f'' : ConstraintFactory V S}
  {s t u : Stream} {c : Candidate V} {l r : DeclId}

/-- The same factory after other calls. -/
structure Later (N : Naming V) (f f' : ConstraintFactory V S) : Prop where
  id : f'.id = f.id
  domain : f'.domain = f.domain
  graph : GraphBuilder.Later N f.graph f'.graph

theorem Later.trans (h : Later N f f') (h' : Later N f' f'') : Later N f f'' :=
  ⟨h'.id.trans h.id, h'.domain.trans h.domain, h.graph.trans h'.graph⟩

/-- The calls answer `a` on the factory from now on, and change nothing. -/
def Again (N : Naming V) (f : ConstraintFactory V S) (x : Declaring V S α) (a : α) : Prop :=
  ∀ f', Later N f f' → x.run.run f' = (.ok a, f')

namespace Again

variable {x : Declaring V S α} {next : α → Declaring V S β} {a : α} {b : β}

theorem later (h : Again N f x a) (hl : Later N f f') : Again N f' x a :=
  fun f'' h' => h f'' (hl.trans h')

theorem bind (hx : Again N f x a) (hn : Again N f (next a) b) : Again N f (x >>= next) b :=
  fun f' h => Outcome.run_bind_eq_ok.mpr ⟨a, f', hx f' h, hn f' h⟩

theorem own {x : Declaring V S α} (hs : s.factory = f.id) (hx : Again N f x a) :
    Again N f (own s >>= fun _ => x) a :=
  fun f' h => (own_passes (hs.trans h.id.symm)).trans (hx f' h)

theorem classOf {type : String} {cl : FactClass V} {next : FactClass V → Declaring V S α}
    (hc : f.domain.class? type = some cl) (hx : Again N f (next cl) a) :
    Again N f (ConstraintFactory.classOf type >>= next) a :=
  fun f' h => (classOf_passes (h.domain ▸ hc)).trans (hx f' h)

end Again

namespace Declares

theorem later (h : Declares N f c u f') : Later N f f' :=
  ⟨h.id, h.domain, h.whole, h.grown.kept⟩

/-- The stream of a declaration that the builder finds again. -/
theorem again (h : Declares N f c u f') {w : Nat} {b : Build V S DeclId} (hw : c.width = w)
    (hb : GraphBuilder.Again N f'.graph b u.decl) : Again N f' (declare w b) u := by
  intro f'' hl
  have hu : u = ⟨f''.id, u.decl, w⟩ := by
    rw [hl.id, h.id, ← h.factory, ← hw, ← h.stands.width]
  rw [declare_run (hb f''.graph hl.graph), ← hu]

variable {x : Numbering (Candidate V)} {n : Nat}

theorem numbered_share_again (h : Declares N f c u f') (hx : x.Fixed) (hc : (x.run n).1 = c)
    (hplain : c.operation.kind.isBridged = false) :
    GraphBuilder.Again N f'.graph (do GraphBuilder.share (← GraphBuilder.numbered x)) u.decl :=
  (GraphBuilder.numbered_again hx n).bind
    (hc ▸ GraphBuilder.share_again (h.stands.plain hplain))

theorem shareBridged_again (h : Declares N f c u f') (hbridged : c.operation.kind.isBridged) :
    GraphBuilder.Again N f'.graph (GraphBuilder.shareBridged c) u.decl := by
  obtain ⟨id, hshares, hbridge⟩ := h.stands.bridged hbridged
  exact GraphBuilder.shareBridged_again h.coded hbridged hshares hbridge

theorem numbered_shareBridged_again (h : Declares N f c u f') (hx : x.Fixed)
    (hc : (x.run n).1 = c) (hbridged : c.operation.kind.isBridged) :
    GraphBuilder.Again N f'.graph (do GraphBuilder.shareBridged (← GraphBuilder.numbered x)) u.decl :=
  (GraphBuilder.numbered_again hx n).bind (hc ▸ h.shareBridged_again hbridged)

theorem source_again {type : String} {cl : FactClass V} {includeUnassigned : Bool}
    (hc : f.domain.class? type = some cl)
    (h : Declares N f (.source type (includeUnassigned || !cl.canBeUnassigned)) u f') :
    Again N f' (source type includeUnassigned) u :=
  .classOf (h.domain ▸ hc) (h.again rfl (GraphBuilder.share_again (h.stands.plain rfl)))

theorem filter_again {accepts : RowFunction V Bool} {n : Nat} (hs : s.factory = f.id)
    (hf : accepts.IsNamed)
    (h : Declares N f ((Candidate.filter s.decl accepts s.width).run n).1 u f') :
    Again N f' (filter s accepts) u :=
  .own (hs.trans h.id.symm) (h.again rfl
    (h.numbered_share_again (hf.param.bind fun _ => .pure _) rfl rfl))

theorem map_again {columns : List (RowFunction V V)} {n : Nat} (hs : s.factory = f.id)
    (hf : ∀ c ∈ columns, c.IsNamed)
    (h : Declares N f ((Candidate.map s.decl columns).run n).1 u f') :
    Again N f' (map s columns) u :=
  .own (hs.trans h.id.symm) (h.again rfl
    (h.numbered_shareBridged_again ((RowFunction.IsNamed.params hf).bind fun _ => .pure _) rfl rfl))

theorem flattenLast_again {expand : RowFunction V (List V)} {n : Nat} (hs : s.factory = f.id)
    (hf : expand.IsNamed)
    (h : Declares N f ((Candidate.flattenLast s.decl expand s.width).run n).1 u f') :
    Again N f' (flattenLast s expand) u :=
  .own (hs.trans h.id.symm) (h.again rfl
    (h.numbered_shareBridged_again (hf.param.bind fun _ => .pure _) rfl rfl))

theorem group_again {parts : List (GroupPart V)} {n : Nat} (hs : s.factory = f.id)
    (hcheck : GroupPart.check parts = .ok ()) (hf : ∀ p ∈ parts, p.IsNamed)
    (h : Declares N f ((Candidate.group s.decl parts).run n).1 u f') :
    Again N f' (group s parts) u := by
  refine .own (hs.trans h.id.symm) ?_
  rw [hcheck]
  exact h.again rfl (h.numbered_shareBridged_again
    ((GroupPart.IsNamed.allParams hf).bind fun _ => .pure _) rfl rfl)

end Declares

/-- The fore bridges of two inputs are found again. -/
theorem Bridged.again {g : GraphBuilder V S} (hb : Bridged g.declared s t l r)
    (hs : Handed g.declared s) (ht : Handed g.declared t)
    {b : DeclId → DeclId → Build V S DeclId} {id : DeclId}
    (h : GraphBuilder.Again N g (b l r) id) : GraphBuilder.Again N g (do
      let left ← GraphBuilder.foreBridge s.decl .left
      let right ← GraphBuilder.foreBridge t.decl .right
      b left right) id := by
  obtain ⟨c, hc, -, hcw⟩ := hs
  obtain ⟨d, hd, -, hdw⟩ := ht
  exact (GraphBuilder.foreBridge_again hc (hcw ▸ hb.left)).bind
    ((GraphBuilder.foreBridge_again hd (hdw ▸ hb.right)).bind h)

namespace Declares

theorem concat_again (hs : Handed f.graph.declared s) (ht : Handed f.graph.declared t)
    (howns : s.factory = f.id) (hownt : t.factory = f.id)
    (hb : Bridged f'.graph.declared s t l r) (h : Declares N f (.concat l r s.width) u f') :
    Again N f' (concat s t) u :=
  .own (howns.trans h.id.symm) (.own (hownt.trans h.id.symm) (h.again rfl
    (hb.again (hs.kept h.grown.kept) (ht.kept h.grown.kept) (h.shareBridged_again rfl))))

theorem join_again {joiner : Joiner V} {n : Nat} (hs : Handed f.graph.declared s)
    (ht : Handed f.graph.declared t) (howns : s.factory = f.id) (hownt : t.factory = f.id)
    (hj : joiner.IsNamed) (hb : Bridged f'.graph.declared s t l r)
    (h : Declares N f ((Candidate.join l r joiner (s.width + t.width)).run n).1 u f') :
    Again N f' (join s t joiner) u :=
  .own (howns.trans h.id.symm) (.own (hownt.trans h.id.symm) (h.again rfl
    (hb.again (hs.kept h.grown.kept) (ht.kept h.grown.kept)
      (h.numbered_shareBridged_again (hj.params.bind fun _ => .pure _) rfl rfl))))

theorem existence_again {shouldExist : Bool} {joiner : Joiner V} {n : Nat}
    (hs : Handed f.graph.declared s) (ht : Handed f.graph.declared t) (howns : s.factory = f.id)
    (hownt : t.factory = f.id) (hj : joiner.IsNamed) (hb : Bridged f'.graph.declared s t l r)
    (h : Declares N f ((Candidate.exists l r shouldExist joiner s.width).run n).1 u f') :
    Again N f' (existence shouldExist s t joiner) u :=
  .own (howns.trans h.id.symm) (.own (hownt.trans h.id.symm) (h.again rfl
    (hb.again (hs.kept h.grown.kept) (ht.kept h.grown.kept)
      (h.numbered_shareBridged_again (hj.params.bind fun _ => .pure _) rfl rfl))))

end Declares

end ConstraintScoring.ConstraintFactory
