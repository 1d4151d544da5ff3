import ConstraintScoring.Proofs.Graph.Growth

/-!
# Taking a step again

A step whose functions all go by names has the same key whenever it is taken. Once its declarations
are in the graph, the builder finds them there and adds nothing, whatever else has been declared.
-/

namespace ConstraintScoring

variable {V S α β : Type}

/-- A numbering that numbers nothing. -/
def Numbering.Fixed (x : Numbering α) : Prop := ∃ a, ∀ n, x.run n = (a, n)

namespace Numbering.Fixed

theorem pure (a : α) : Fixed (Pure.pure a) := ⟨a, fun _ => rfl⟩

theorem bind {x : Numbering α} {f : α → Numbering β} (hx : x.Fixed) (hf : ∀ a, (f a).Fixed) :
    Fixed (x >>= f) := by
  obtain ⟨a, hx⟩ := hx
  obtain ⟨b, hf⟩ := hf a
  refine ⟨b, fun n => ?_⟩
  rw [StateT.run_bind, hx]
  exact hf n

theorem run {x : Numbering α} (hx : x.Fixed) (k n : Nat) : x.run n = ((x.run k).1, n) := by
  obtain ⟨a, hx⟩ := hx
  rw [hx, hx]

end Numbering.Fixed

def RowFunction.IsNamed (f : RowFunction V β) : Prop := f.name.isSome

theorem RowFunction.IsNamed.param {f : RowFunction V β} (hf : f.IsNamed) : f.param.Fixed := by
  obtain ⟨name, hname⟩ := Option.isSome_iff_exists.mp hf
  unfold RowFunction.param
  rw [hname]
  exact .pure _

theorem RowFunction.IsNamed.params {fs : List (RowFunction V β)} (hfs : ∀ f ∈ fs, f.IsNamed) :
    Numbering.Fixed (fs.mapM (·.param)) := by
  induction fs with
  | nil => exact .pure _
  | cons f fs ih =>
      rw [List.mapM_cons]
      exact (hfs f List.mem_cons_self).param.bind fun _ =>
        (ih fun g hg => hfs g (List.mem_cons_of_mem f hg)).bind fun _ => .pure _

namespace Joiner

def IsNamed : Joiner V → Prop
  | all => True
  | equal left right | compare _ left right => left.IsNamed ∧ right.IsNamed
  | overlapping ls le rs re => ls.IsNamed ∧ le.IsNamed ∧ rs.IsNamed ∧ re.IsNamed
  | filtering accepts => accepts.IsNamed
  | and first second => first.IsNamed ∧ second.IsNamed

theorem IsNamed.params {j : Joiner V} (hj : j.IsNamed) : j.params.Fixed := by
  induction j with
  | all => exact .pure _
  | equal left right | compare c left right =>
      exact hj.1.param.bind fun _ => hj.2.param.bind fun _ => .pure _
  | overlapping ls le rs re =>
      obtain ⟨hls, hle, hrs, hre⟩ := hj
      exact hls.param.bind fun _ => hle.param.bind fun _ => hrs.param.bind fun _ =>
        hre.param.bind fun _ => .pure _
  | filtering accepts => exact RowFunction.IsNamed.param hj |>.bind fun _ => .pure _
  | and first second ih₁ ih₂ => exact (ih₁ hj.1).bind fun _ => (ih₂ hj.2).bind fun _ => .pure _

end Joiner

namespace GroupPart

def IsNamed : GroupPart V → Prop
  | key f => f.IsNamed
  | column _ => True
  | collector c => c.kind ≠ .count → c.contribution.IsNamed

theorem IsNamed.params {p : GroupPart V} (hp : p.IsNamed) : p.params.Fixed := by
  cases p with
  | key f => exact RowFunction.IsNamed.param hp |>.bind fun _ => .pure _
  | column index => exact .pure _
  | collector c =>
      by_cases hk : c.kind = .count
      · simp only [GroupPart.params, hk]
        exact .pure _
      · have hparams : (collector c).params = do
            return [.label "collector", .label c.kind.label, ← c.contribution.param] := by
          cases hkind : c.kind with
          | count => exact absurd hkind hk
          | _ => simp only [GroupPart.params, hkind]
        rw [hparams]
        exact (hp hk).param.bind fun _ => .pure _

theorem IsNamed.allParams {ps : List (GroupPart V)} (hps : ∀ p ∈ ps, p.IsNamed) :
    (allParams ps).Fixed := by
  induction ps with
  | nil => exact .pure _
  | cons p ps ih =>
      exact (hps p List.mem_cons_self).params.bind fun _ =>
        (ih fun q hq => hps q (List.mem_cons_of_mem p hq)).bind fun _ => .pure _

end GroupPart

namespace GraphBuilder

variable [Cell V] {N : Naming V} {g g' g'' : GraphBuilder V S} {c : Candidate V}
  {id p bridge : DeclId} {a : α} {b : β} {x : Build V S α} {f : α → Build V S β}

/-- A later graph, between two steps. -/
structure Later (N : Naming V) (g g' : GraphBuilder V S) : Prop where
  whole : g'.Whole N
  kept : g.declared.Extends g'.declared

theorem Later.trans (h : Later N g g') (h' : Later N g' g'') : Later N g g'' :=
  ⟨h'.whole, h.kept.trans h'.kept⟩

/-- The steps answer `a` in every later graph, and add nothing to it. -/
def Again (N : Naming V) (g : GraphBuilder V S) (x : Build V S α) (a : α) : Prop :=
  ∀ g', Later N g g' → x.run.run g' = (.ok a, g')

theorem Again.bind (hx : Again N g x a) (hf : Again N g (f a) b) : Again N g (x >>= f) b :=
  fun g' h => Outcome.run_bind_eq_ok.mpr ⟨a, g', hx g' h, hf g' h⟩

theorem numbered_again {x : Numbering α} (hx : x.Fixed) (n : Nat) :
    Again N g (numbered x) (x.run n).1 := by
  intro g' _
  rw [numbered_run, hx.run n]

theorem share_again (hc : Shares g.declared c id) : Again N g (share c) id := by
  intro g' h
  obtain ⟨d, hd, hkey, -⟩ := hc
  have hk : g'.canonical.get? c.key = some id :=
    (h.whole.canonical c.key id).mpr ⟨d, h.kept _ _ hd, hkey⟩
  unfold share
  rw [Outcome.run_get_bind, hk]
  rfl

/-- The aft bridge of a step is the only declaration with its key. -/
theorem shareBridged_again (hcoded : c.operation.Coded N c.key)
    (hbridged : c.operation.kind.isBridged) (hc : Shares g.declared c id)
    (hb : g.declared bridge = some (.aftBridge id c.width)) :
    Again N g (shareBridged c) bridge := by
  intro g' h
  obtain ⟨d, hd, hkey, -⟩ := hc
  have hd' := h.kept _ _ hd
  have hk : g'.canonical.get? c.key = some id := (h.whole.canonical c.key id).mpr ⟨d, hd', hkey⟩
  have hkind : d.operation.kind = c.operation.kind := by
    rw [← (h.whole.coded id d hd').1, ← hcoded.1, hkey]
  obtain ⟨e, he, rfl⟩ := declaredIn_eq_some.mp hd'
  obtain ⟨other, hother⟩ := Option.isSome_iff_exists.mp
    (h.whole.complete id e he (by rwa [← hkind] at hbridged))
  obtain rfl := h.whole.eq_of_key (h.whole.bridged id e other he hother) (h.kept _ _ hb) rfl
  unfold shareBridged
  rw [Outcome.run_get_bind, hk]
  simp only
  rw [Outcome.run_get_bind, he, Option.bind_some, hother]
  rfl

theorem foreBridge_again {side : Side} {c : Candidate V} (hp : g.declared p = some c)
    (hid : g.declared id = some (.foreBridge p side c.width)) :
    Again N g (foreBridge p side) id := by
  intro g' h
  have hwidth : g'.width p = c.width := by
    rw [width_eq, Declared.width, h.kept _ _ hp]
    rfl
  have hshares : Shares g.declared (.foreBridge p side c.width) id :=
    ⟨_, hid, rfl, rfl, Or.inl rfl⟩
  unfold foreBridge
  rw [Outcome.run_get_bind, hwidth]
  exact share_again hshares g' h

end GraphBuilder

end ConstraintScoring
