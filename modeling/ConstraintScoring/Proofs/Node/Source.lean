import ConstraintScoring.Node.Source
import ConstraintScoring.Proofs.Node.Images
import ConstraintScoring.Proofs.Same

/-!
# Sources

A source reflects the facts of a session if it has an output for each fact of its class that it
accepts, with the cell of the fact as its row. Taking note of a change keeps this up.
-/

namespace ConstraintScoring

variable {V : Type} [Cell V]

/-- What can happen to a fact. -/
inductive FactChange where
  | insert
  | update
  | retract
deriving DecidableEq

namespace FactChange

/-- How a source takes note of the change. -/
def stage : FactChange → SourceNode V → Fact V → Stage V (SourceNode V)
  | insert => SourceNode.insert
  | update => SourceNode.update
  | retract => SourceNode.retract

def after (c : FactChange) (facts : Table (FactKey V) V) (f : Fact V) : Table (FactKey V) V :=
  match c with
  | insert | update => facts.insert f.key f.cell
  | retract => facts.erase f.key

/-- A fact is inserted once, and updated or retracted only while it is there. -/
def Allowed (c : FactChange) (facts : Table (FactKey V) V) (f : Fact V) : Prop :=
  match c with
  | insert => facts.get? f.key = none
  | update | retract => ∃ cell, facts.get? f.key = some cell

end FactChange

/-- The fact a table of facts has under a key. -/
def FactKey.fact (k : FactKey V) (cell : V) : Fact V := ⟨k.type, k.id, cell⟩

namespace SourceNode

structure Reflects (n : SourceNode V) (facts : Table (FactKey V) V) (ρ : TupleId → Row V) :
    Prop where
  distinct : n.outputs.Distinct
  backed : ∀ k out, n.outputs.get? k = some out →
    k.type = n.type ∧ ∃ cell, facts.get? k = some cell
  accepts : ∀ k cell, k.type = n.type → facts.get? k = some cell →
    ∃ passes, n.accepts (k.fact cell) = .ok passes ∧
      (passes = true ↔ ∃ out, n.outputs.get? k = some out) ∧
      ∀ out, n.outputs.get? k = some out → ρ out = [cell]

variable {n n' : SourceNode V} {facts facts' : Table (FactKey V) V} {ρ ρ' : TupleId → Row V}
  {f : Fact V} {s : Staging V} {W : Row V → Prop}

omit [Cell V] in
theorem accepts_congr {f g : Fact V} (htype : f.type = g.type) (hcell : f.cell = g.cell) :
    n.accepts f = n.accepts g := by
  unfold accepts FactClass.isAssigned
  rw [htype, hcell]

theorem Reflects.frame (h : n.Reflects facts ρ) (houts : ∀ x ∈ n.outputs.values, ρ' x = ρ x)
    (hfacts : ∀ k, k.type = n.type → facts'.get? k = facts.get? k) : n.Reflects facts' ρ' := by
  refine ⟨h.distinct, fun k out hout => ?_, fun k cell htype hk => ?_⟩
  · obtain ⟨htype, hcell⟩ := h.backed k out hout
    rw [hfacts k htype]
    exact ⟨htype, hcell⟩
  · rw [hfacts k htype] at hk
    obtain ⟨passes, hpass, hiff, hrow⟩ := h.accepts k cell htype hk
    refine ⟨passes, hpass, hiff, fun out hout => ?_⟩
    rw [houts out (Table.mem_values_of_get? hout), hrow out hout]

theorem reflects_unused (hn : n.outputs = .empty) : n.Reflects .empty ρ := by
  refine ⟨hn ▸ Table.distinct_empty, fun k out hout => ?_, fun k cell _ hcell => ?_⟩
  · rw [hn] at hout
    simp at hout
  · simp at hcell

variable [Std.TransOrd V]

/-- No two keys that differ have the same output. -/
theorem output_inj (hn : n.outputs.values.Nodup) {k l : FactKey V} {x : TupleId}
    (hk : n.outputs.get? k = some x) (hl : n.outputs.get? l = some x) : (k == l) = true := by
  obtain ⟨k', hk', hkk⟩ := Table.mem_of_get? hk
  obtain ⟨l', hl', hll⟩ := Table.mem_of_get? hl
  have he := List.inj_on_of_nodup_map hn hk' hl' rfl
  obtain rfl : k' = l' := congrArg Prod.fst he
  exact BEq.trans (BEq.symm hkk) hll

omit [Std.TransOrd V] in
/-- One fact is answered anew, and all others keep their outputs. -/
theorem reflects_change (h : n.Reflects facts ρ) (hd : n'.outputs.Distinct)
    (htype : n'.type = n.type) (hclass : n'.assignedOnly = n.assignedOnly) (hf : f.type = n.type)
    (hother : ∀ k, (f.key == k) = false → n'.outputs.get? k = n.outputs.get? k)
    (hrows : ∀ k out, (f.key == k) = false → n.outputs.get? k = some out → ρ' out = ρ out)
    (hfacts : ∀ k, (f.key == k) = false → facts'.get? k = facts.get? k)
    (hbacked : ∀ k out, (f.key == k) = true → n'.outputs.get? k = some out →
      ∃ cell, facts'.get? k = some cell)
    (hnew : ∀ k cell, (f.key == k) = true → facts'.get? k = some cell → cell = f.cell ∧
      ∃ passes, n.accepts f = .ok passes ∧
        (passes = true ↔ ∃ out, n'.outputs.get? k = some out) ∧
        ∀ out, n'.outputs.get? k = some out → ρ' out = [f.cell]) :
    n'.Reflects facts' ρ' := by
  have haccepts : ∀ g, n'.accepts g = n.accepts g := fun g => by
    unfold SourceNode.accepts
    rw [hclass]
  have hkey : ∀ k, (f.key == k) = true → k.type = n.type := fun k hk =>
    (factKey_beq_iff.mp hk).1.symm.trans hf
  refine ⟨hd, fun k out hout => ?_, fun k cell hk hcell => ?_⟩
  · cases hfk : f.key == k with
    | false =>
        rw [hother k hfk] at hout
        rw [htype, hfacts k hfk]
        exact h.backed k out hout
    | true => exact ⟨(hkey k hfk).trans htype.symm, hbacked k out hfk hout⟩
  · cases hfk : f.key == k with
    | false =>
        rw [hfacts k hfk] at hcell
        obtain ⟨passes, hpass, hiff, hrow⟩ := h.accepts k cell (hk.trans htype) hcell
        rw [hother k hfk, haccepts]
        refine ⟨passes, hpass, hiff, fun out hout => ?_⟩
        rw [hrows k out hfk hout, hrow out hout]
    | true =>
        obtain ⟨rfl, passes, hpass, hiff, hrow⟩ := hnew k cell hfk hcell
        refine ⟨passes, ?_, hiff, hrow⟩
        rw [haccepts, ← hpass]
        exact accepts_congr (factKey_beq_iff.mp hfk).1.symm rfl

/-- What taking note of a change of `f` leads to. -/
def Noted (W : Row V → Prop) (n : SourceNode V) (s : Staging V) (facts : Table (FactKey V) V)
    (n' : SourceNode V) (s' : Staging V) : Prop :=
  Staging.Work W s n.outputs.values s' n'.outputs.values ∧ n'.Reflects facts s'.arena.row ∧
    n'.type = n.type ∧ n'.assignedOnly = n.assignedOnly

theorem get?_of_ne (t : Table (FactKey V) V) {k l : FactKey V} (cell : V)
    (hkl : (k == l) = false) : (t.insert k cell).get? l = t.get? l :=
  Table.get?_insert_other t cell hkl

theorem add_reflects (h : n.Reflects facts s.arena.row) (hv : s.Tended n.outputs.values)
    (hf : f.type = n.type) (hpass : n.accepts f = .ok true)
    (hnone : n.outputs.get? f.key = none) (hW : W [f.cell]) :
    n.Noted W s (facts.insert f.key f.cell)
      { n with outputs := n.outputs.insert f.key s.arena.next } (s.inserted [f.cell]) := by
  have hrow := Staging.row_inserted (r := [f.cell]) hv.valid
  have hnew : ∀ k, (f.key == k) = true →
      (n.outputs.insert f.key s.arena.next).get? k = some s.arena.next := fun k hk => by
    rw [Table.get?_insert, if_pos hk]
  have hnewFact : ∀ k, (f.key == k) = true → (facts.insert f.key f.cell).get? k = some f.cell :=
    fun k hk => by rw [Table.get?_insert, if_pos hk]
  refine ⟨Table.work_insert hnone hW, reflects_change h (h.distinct.insert _ _) rfl rfl hf
    (fun k hk => Table.get?_insert_other _ _ hk) (fun k out _ hout => ?_)
    (fun k hk => get?_of_ne _ _ hk) (fun k out hk _ => ⟨f.cell, hnewFact k hk⟩)
    fun k cell hk hcell => ⟨?_, true, hpass, ?_, ?_⟩, rfl, rfl⟩
  · have hocc := hv.occupied (Table.mem_values_of_get? hout)
    rw [hrow, if_neg fun (hon : out = s.arena.next) => s.arena.not_occupied_next (hon ▸ hocc)]
  · exact (Option.some.inj ((hnewFact k hk).symm.trans hcell)).symm
  · exact ⟨fun _ => ⟨_, hnew k hk⟩, fun _ => rfl⟩
  · intro out hout
    obtain rfl := Option.some.inj ((hnew k hk).symm.trans hout)
    rw [hrow, if_pos rfl]

theorem drop_reflects {out : TupleId} {facts' : Table (FactKey V) V}
    (h : n.Reflects facts s.arena.row) (hv : s.Tended n.outputs.values) (hf : f.type = n.type)
    (hout : n.outputs.get? f.key = some out)
    (hfacts : ∀ k, (f.key == k) = false → facts'.get? k = facts.get? k)
    (hnew : ∀ k cell, (f.key == k) = true → facts'.get? k = some cell →
      cell = f.cell ∧ n.accepts f = .ok false) :
    n.Noted W s facts' { n with outputs := n.outputs.erase f.key } (s.retracted out) := by
  have hrow := Staging.row_retracted (hv.active out (Table.mem_values_of_get? hout))
  have hgone : ∀ k, (f.key == k) = true → (n.outputs.erase f.key).get? k = none := fun k hk => by
    rw [h.distinct.get?_erase, if_pos hk]
  refine ⟨Table.work_retract hout, reflects_change h (h.distinct.erase _) rfl rfl hf
    (fun k hk => ?_) (fun _ _ _ _ => hrow _) hfacts (fun k o hk ho => ?_)
    fun k cell hk hcell => ?_, rfl, rfl⟩
  · rw [h.distinct.get?_erase, if_neg (by simp [hk])]
  · rw [hgone k hk] at ho
    cases ho
  · obtain ⟨hcell, hpass⟩ := hnew k cell hk hcell
    exact ⟨hcell, false, hpass, by simp [hgone k hk], by simp [hgone k hk]⟩

theorem skip_reflects {facts' : Table (FactKey V) V} (h : n.Reflects facts s.arena.row)
    (hf : f.type = n.type) (hnone : n.outputs.get? f.key = none)
    (hfacts : ∀ k, (f.key == k) = false → facts'.get? k = facts.get? k)
    (hnew : ∀ k cell, (f.key == k) = true → facts'.get? k = some cell →
      cell = f.cell ∧ n.accepts f = .ok false) : n.Noted W s facts' n s := by
  have hgone : ∀ k, (f.key == k) = true → n.outputs.get? k = none := fun k hk =>
    (Table.get?_congr _ hk).symm.trans hnone
  refine ⟨.refl, reflects_change h h.distinct rfl rfl hf (fun _ _ => rfl) (fun _ _ _ _ => rfl) hfacts
    (fun k o hk ho => ?_) fun k cell hk hcell => ?_, rfl, rfl⟩
  · rw [hgone k hk] at ho
    cases ho
  · obtain ⟨hcell, hpass⟩ := hnew k cell hk hcell
    exact ⟨hcell, false, hpass, by simp [hgone k hk], by simp [hgone k hk]⟩

theorem replace_reflects {out : TupleId} (h : n.Reflects facts s.arena.row)
    (hv : s.Tended n.outputs.values) (hf : f.type = n.type) (hpass : n.accepts f = .ok true)
    (hout : n.outputs.get? f.key = some out) (hW : W [f.cell]) :
    n.Noted W s (facts.insert f.key f.cell) n (s.updated out [f.cell]) := by
  have hmem := Table.mem_values_of_get? hout
  have hrow := Staging.row_updated (r := [f.cell]) (hv.active out hmem) (hv.occupied hmem)
  have hsame : ∀ k, (f.key == k) = true → n.outputs.get? k = some out := fun k hk =>
    (Table.get?_congr _ hk).symm.trans hout
  have hnewFact : ∀ k, (f.key == k) = true → (facts.insert f.key f.cell).get? k = some f.cell :=
    fun k hk => by rw [Table.get?_insert, if_pos hk]
  refine ⟨Table.work_update hout hW, reflects_change h h.distinct rfl rfl hf (fun _ _ => rfl)
    (fun k o hk ho => ?_) (fun k hk => get?_of_ne _ _ hk)
    (fun k o hk _ => ⟨f.cell, hnewFact k hk⟩) fun k cell hk hcell => ⟨?_, true, hpass, ?_, ?_⟩,
    rfl, rfl⟩
  · rw [hrow, if_neg]
    rintro rfl
    have hkey := output_inj hv.nodup hout ho
    rw [hk] at hkey
    cases hkey
  · exact (Option.some.inj ((hnewFact k hk).symm.trans hcell)).symm
  · exact ⟨fun _ => ⟨_, hsame k hk⟩, fun _ => rfl⟩
  · intro o ho
    obtain rfl := Option.some.inj ((hsame k hk).symm.trans ho)
    rw [hrow, if_pos rfl]

/-- A source is stopped by nothing but the test for assigned facts. -/
theorem change_ensures (c : FactChange) (h : n.Reflects facts s.arena.row) (hd : facts.Distinct)
    (hv : s.Tended n.outputs.values) (hf : f.type = n.type) (hallowed : c.Allowed facts f)
    (hW : W [f.cell]) :
    (c.stage n f).Ensures s (n.Noted W s (c.after facts f)) fun fault =>
      n.accepts f = .error fault := by
  have hkeep : ∀ k, (f.key == k) = false → (facts.insert f.key f.cell).get? k = facts.get? k :=
    fun k hk => get?_of_ne _ _ hk
  have hreject : n.accepts f = .ok false → ∀ k cell, (f.key == k) = true →
      (facts.insert f.key f.cell).get? k = some cell →
      cell = f.cell ∧ n.accepts f = .ok false := by
    intro hpass k cell hk hcell
    rw [Table.get?_insert, if_pos hk] at hcell
    exact ⟨(Option.some.inj hcell).symm, hpass⟩
  cases c with
  | insert =>
      have hnone : n.outputs.get? f.key = none := by
        by_contra hne
        obtain ⟨out, hout⟩ := Option.ne_none_iff_exists'.mp hne
        obtain ⟨-, cell, hcell⟩ := h.backed f.key out hout
        rw [show facts.get? f.key = none from hallowed] at hcell
        cases hcell
      refine .of_bind (.of_except (fun passes hpass => ?_) fun fault hfault => hfault)
      cases passes with
      | true =>
          simp only [↓reduceIte]
          exact .of_bind (.of_insert (.of_pure (add_reflects h hv hf hpass hnone hW)))
      | false =>
          exact .of_pure (skip_reflects h hf hnone hkeep (hreject hpass))
  | update =>
      refine .of_bind (.of_except (fun passes hpass => ?_) fun fault hfault => hfault)
      cases hout : n.outputs.get? f.key with
      | some out =>
          have ha := hv.active out (Table.mem_values_of_get? hout)
          cases passes with
          | true =>
              exact .of_bind (.of_update ha (.of_pure (replace_reflects h hv hf hpass hout hW)))
          | false =>
              exact .of_bind (.of_retract ha (.of_pure
                (drop_reflects h hv hf hout hkeep (hreject hpass))))
      | none =>
          cases passes with
          | true => exact .of_bind (.of_insert (.of_pure (add_reflects h hv hf hpass hout hW)))
          | false => exact .of_pure (skip_reflects h hf hout hkeep (hreject hpass))
  | retract =>
      have hkeep' : ∀ k, (f.key == k) = false → (facts.erase f.key).get? k = facts.get? k :=
        fun k hk => by rw [hd.get?_erase, if_neg (by simp [hk])]
      have hgone : ∀ k cell, (f.key == k) = true → (facts.erase f.key).get? k = some cell →
          cell = f.cell ∧ n.accepts f = .ok false := fun k cell hk hcell => by
        rw [hd.get?_erase, if_pos hk] at hcell
        cases hcell
      change (n.retract f).Ensures s _ _
      unfold SourceNode.retract
      cases hout : n.outputs.get? f.key with
      | some out =>
          have ha := hv.active out (Table.mem_values_of_get? hout)
          exact .of_bind (.of_retract ha (.of_pure (drop_reflects h hv hf hout hkeep' hgone)))
      | none => exact .of_pure (skip_reflects h hf hout hkeep' hgone)

end SourceNode

end ConstraintScoring
