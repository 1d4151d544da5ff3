import Mathlib.Algebra.BigOperators.Fin
import ConstraintScoring.Graph.Frozen
import ConstraintScoring.Proofs.Graph.Growth
import ConstraintScoring.Proofs.Outcome

/-!
# What freezing makes of a graph

A constraint is active if it was selected and its effective weight is not zero, and the owners of a
declaration are the active constraints whose ends depend on it: the walk from an end visits all
that it depends on, and comes to an end since nothing is entered twice. So active declarations have
active parents, and the end of a stream is active only if its own constraint is.
-/

namespace ConstraintScoring

variable {V S : Type}

/-- What a declaration depends on, itself included. -/
inductive DependsOn (D : Declared V) (root : DeclId) : DeclId → Prop where
  | self : DependsOn D root root
  | parent {id c p} : DependsOn D root id → D id = some c → p ∈ c.key.parents → DependsOn D root p

theorem DependsOn.lt {D : Declared V} {root id : DeclId} {n : Nat} (h : DependsOn D root id)
    (hlt : ∀ id c, D id = some c → ∀ p ∈ c.key.parents, p < id) (hroot : root < n) : id < n := by
  induction h with
  | self => exact hroot
  | parent _ hc hp ih => exact Nat.lt_trans (hlt _ _ hc _ hp) ih

namespace GraphBuilder

namespace Walk

variable {ds : Array (Declaration V)} {index : Nat} {root id : DeclId} {before : Array (List Nat)}
  {w : Walk}

/-- A walk for the constraint `index`, which began at `root` with the owners `before`. Whatever it
has been to, it has been to the parents of as well or is yet to go there. -/
structure Underway (ds : Array (Declaration V)) (index : Nat) (root : DeclId)
    (before : Array (List Nat)) (w : Walk) : Prop where
  size : w.owners.size = ds.size
  pending : ∀ id ∈ w.pending, DependsOn (declaredIn ds) root id
  start : root ∈ w.pending ∨ index ∈ w.owners.getD root []
  parents : ∀ id c p, index ∈ w.owners.getD id [] → declaredIn ds id = some c →
    p ∈ c.key.parents → p ∈ w.pending ∨ index ∈ w.owners.getD p []
  owners : ∀ id, w.owners.getD id [] = before.getD id [] ∨
    DependsOn (declaredIn ds) root id ∧ w.owners.getD id [] = before.getD id [] ++ [index]

theorem underway_start (hsize : before.size = ds.size) (hnew : ∀ id, index ∉ before.getD id []) :
    Underway ds index root before ⟨[root], before⟩ := by
  refine ⟨hsize, fun id hid => ?_, Or.inl List.mem_cons_self,
    fun id c p hid => absurd hid (hnew id), fun id => Or.inl rfl⟩
  rw [List.mem_singleton.mp hid]
  exact .self

theorem getD_modify {owners : Array (List Nat)} (index : Nat) (hid : id < owners.size)
    (j : DeclId) :
    (owners.modify id (· ++ [index])).getD j [] =
      if j = id then owners.getD j [] ++ [index] else owners.getD j [] := by
  simp only [Array.getD_eq_getD_getElem?, Array.getElem?_modify]
  by_cases hj : j = id
  · subst hj
    simp [hid]
  · simp [hj, Ne.symm hj]

/-- The walk passes by a declaration that it has been to. -/
theorem Underway.skip {pending : List DeclId} (h : Underway ds index root before w)
    (hp : w.pending = id :: pending) (hbeen : index ∈ w.owners.getD id []) :
    Underway ds index root before { w with pending } := by
  have hrest : ∀ {j : DeclId}, j ∈ w.pending ∨ index ∈ w.owners.getD j [] →
      j ∈ pending ∨ index ∈ w.owners.getD j [] := by
    rintro j (hj | hj)
    · rcases List.mem_cons.mp (hp ▸ hj) with rfl | hj
      · exact Or.inr hbeen
      · exact Or.inl hj
    · exact Or.inr hj
  exact ⟨h.size, fun j hj => h.pending j (hp ▸ List.mem_cons_of_mem id hj), hrest h.start,
    fun j c p hj hc hmem => hrest (h.parents j c p hj hc hmem), h.owners⟩

/-- The walk comes to a declaration and has its parents still to go to. -/
theorem Underway.enter {pending : List DeclId} {d : Declaration V}
    (h : Underway ds index root before w) (hp : w.pending = id :: pending) (hd : ds[id]? = some d)
    (hbeen : index ∉ w.owners.getD id []) :
    Underway ds index root before
      ⟨d.parents.reverse ++ pending, w.owners.modify id (· ++ [index])⟩ := by
  have hdecl : declaredIn ds id = some d.candidate := declaredIn_eq_some.mpr ⟨d, hd, rfl⟩
  have hdepends := h.pending id (hp ▸ List.mem_cons_self)
  have hget := getD_modify index (h.size.symm ▸ lt_of_declaredIn hdecl)
  have hbeen' : ∀ {j : DeclId}, index ∈ (w.owners.modify id (· ++ [index])).getD j [] ↔
      j = id ∨ index ∈ w.owners.getD j [] := by
    intro j
    rw [hget]
    split <;> simp [*]
  have hrest : ∀ {j : DeclId}, j ∈ w.pending ∨ index ∈ w.owners.getD j [] →
      j ∈ d.parents.reverse ++ pending ∨
        index ∈ (w.owners.modify id (· ++ [index])).getD j [] := by
    rintro j (hj | hj)
    · rcases List.mem_cons.mp (hp ▸ hj) with rfl | hj
      · exact Or.inr (hbeen'.mpr (Or.inl rfl))
      · exact Or.inl (List.mem_append_right _ hj)
    · exact Or.inr (hbeen'.mpr (Or.inr hj))
  refine ⟨Array.size_modify.trans h.size, fun j hj => ?_, hrest h.start,
    fun j c p hj hc hmem => ?_, fun j => ?_⟩
  · rcases List.mem_append.mp hj with hj | hj
    · exact hdepends.parent hdecl (List.mem_reverse.mp hj)
    · exact h.pending j (hp ▸ List.mem_cons_of_mem id hj)
  · rcases hbeen'.mp hj with rfl | hj
    · obtain rfl := Option.some.inj (hdecl.symm.trans hc)
      exact Or.inl (List.mem_append_left _ (List.mem_reverse.mpr hmem))
    · exact hrest (h.parents j c p hj hc hmem)
  · rw [hget]
    split
    · rename_i hj
      subst hj
      have hsame := (h.owners j).resolve_right fun ⟨_, ho⟩ => hbeen (by simp [ho])
      exact Or.inr ⟨hdepends, by rw [hsame]⟩
    · exact h.owners j

/-- How many declarations a walk can go on to from one, if it has not been there yet. -/
def parentsLeft (ds : Array (Declaration V)) (index : Nat) (owners : Array (List Nat))
    (id : DeclId) : Nat :=
  if index ∈ owners.getD id [] then 0 else (ds[id]?.map (·.parents.length)).getD 0

/-- How many steps a walk can still take. -/
def left (ds : Array (Declaration V)) (index : Nat) (w : Walk) : Nat :=
  w.pending.length + ∑ id ∈ Finset.range ds.size, parentsLeft ds index w.owners id

theorem left_start (hnew : ∀ id, index ∉ before.getD id []) :
    left ds index ⟨[root], before⟩ = walkLength ds := by
  unfold left walkLength
  rw [List.length_singleton, List.length_flatMap, Finset.sum_range, ← Fin.sum_univ_fun_getElem]
  congr 1
  refine Finset.sum_congr rfl fun i _ => ?_
  rw [parentsLeft, if_neg (hnew i), Array.getElem?_eq_getElem i.isLt]
  rfl

theorem left_enter {pending : List DeclId} {d : Declaration V}
    (hsize : w.owners.size = ds.size) (hp : w.pending = id :: pending) (hd : ds[id]? = some d)
    (hbeen : index ∉ w.owners.getD id []) :
    left ds index ⟨d.parents.reverse ++ pending, w.owners.modify id (· ++ [index])⟩ + 1 =
      left ds index w := by
  have hid : id < ds.size := (Array.getElem?_eq_some_iff.mp hd).1
  have hget := getD_modify index (hsize.symm ▸ hid)
  have hbefore : parentsLeft ds index w.owners id = d.parents.length := by
    rw [parentsLeft, if_neg hbeen, hd]
    rfl
  have hafter : parentsLeft ds index (w.owners.modify id (· ++ [index])) id = 0 := by
    rw [parentsLeft, hget, if_pos rfl]
    exact if_pos (List.mem_append_right _ List.mem_cons_self)
  -- What the walk goes on to from here is pending from now on, so it is counted there instead.
  have hothers : ∑ j ∈ (Finset.range ds.size).erase id,
      parentsLeft ds index (w.owners.modify id (· ++ [index])) j =
        ∑ j ∈ (Finset.range ds.size).erase id, parentsLeft ds index w.owners j :=
    Finset.sum_congr rfl fun j hj => by
      rw [parentsLeft, hget, if_neg (Finset.ne_of_mem_erase hj)]
      rfl
  have hsum : ∀ owners, ∑ j ∈ Finset.range ds.size, parentsLeft ds index owners j =
      parentsLeft ds index owners id +
        ∑ j ∈ (Finset.range ds.size).erase id, parentsLeft ds index owners j :=
    fun owners => (Finset.add_sum_erase _ _ (Finset.mem_range.mpr hid)).symm
  simp only [left, hsum, hothers, hbefore, hafter, hp, List.length_append, List.length_reverse,
    List.length_cons]
  omega

/-- A step of a walk that has somewhere to go. -/
theorem Underway.step (h : Underway ds index root before w)
    (hlt : ∀ id c, declaredIn ds id = some c → ∀ p ∈ c.key.parents, p < id) (hroot : root < ds.size)
    (hne : w.pending ≠ []) : Underway ds index root before (w.step ds index) ∧
      left ds index (w.step ds index) + 1 = left ds index w := by
  obtain ⟨id, pending, hp⟩ := List.exists_cons_of_ne_nil hne
  -- Whatever is pending depends on the root, so it stands before it and is declared.
  have hid : id < ds.size := (h.pending id (hp ▸ List.mem_cons_self)).lt hlt hroot
  have hd := Array.getElem?_eq_getElem hid
  unfold Walk.step
  rw [hp]
  simp only [hd]
  split
  · rename_i hbeen
    refine ⟨h.skip hp (List.contains_iff_mem.mp hbeen), ?_⟩
    simp only [left, hp, List.length_cons]
    omega
  · rename_i hbeen
    have hbeen : index ∉ w.owners.getD id [] := fun hmem => hbeen (List.contains_iff_mem.mpr hmem)
    exact ⟨h.enter hp hd hbeen, left_enter h.size hp hd hbeen⟩

theorem run_of_ended (n : Nat) (hp : w.pending = []) : w.run ds index n = w := by
  induction n with
  | zero => rfl
  | succ n ih =>
      have hstep : w.step ds index = w := by
        unfold Walk.step
        rw [hp]
      rw [run, hstep, ih]

/-- A walk comes to its end in the steps that it has left. -/
theorem Underway.run (hlt : ∀ id c, declaredIn ds id = some c → ∀ p ∈ c.key.parents, p < id)
    (hroot : root < ds.size) {n : Nat} (h : Underway ds index root before w)
    (hn : left ds index w ≤ n) :
    Underway ds index root before (w.run ds index n) ∧ (w.run ds index n).pending = [] := by
  induction n generalizing w with
  | zero =>
      exact ⟨h, List.length_eq_zero_iff.mp (Nat.eq_zero_of_add_eq_zero (Nat.le_zero.mp hn)).1⟩
  | succ n ih =>
      by_cases hp : w.pending = []
      · rw [run_of_ended _ hp]
        exact ⟨h, hp⟩
      · obtain ⟨hnext, hleft⟩ := h.step hlt hroot hp
        exact ih hnext (by omega)

/-- A walk that has come to its end has been to everything that its root depends on. -/
theorem Underway.ended (h : Underway ds index root before w) (hp : w.pending = [])
    (hid : DependsOn (declaredIn ds) root id) : index ∈ w.owners.getD id [] := by
  have hnowhere : ∀ {j : DeclId}, j ∉ w.pending := fun hj => by
    rw [hp] at hj
    cases hj
  induction hid with
  | self => exact h.start.resolve_left hnowhere
  | parent _ hc hmem ih => exact (h.parents _ _ _ ih hc hmem).resolve_left hnowhere

end Walk

section Owners

variable {ds : Array (Declaration V)} {cs : Array (ConstraintDef V S)} {owners : Array (List Nat)}
  {index i : Nat} {done : List Nat}

/-- A constraint becomes the last owner of all that its end depends on. -/
theorem addOwner_spec (hlt : ∀ id c, declaredIn ds id = some c → ∀ p ∈ c.key.parents, p < id)
    (hroot : scoreDeclOf cs index < ds.size) (hsize : owners.size = ds.size)
    (hnew : ∀ id, index ∉ owners.getD id []) :
    (addOwner ds cs owners index).size = ds.size ∧ ∀ id,
      DependsOn (declaredIn ds) (scoreDeclOf cs index) id ∧
          (addOwner ds cs owners index).getD id [] = owners.getD id [] ++ [index] ∨
        ¬DependsOn (declaredIn ds) (scoreDeclOf cs index) id ∧
          (addOwner ds cs owners index).getD id [] = owners.getD id [] := by
  obtain ⟨hrun, hended⟩ := (Walk.underway_start hsize hnew).run hlt hroot
    (Walk.left_start hnew).le
  refine ⟨hrun.size, fun id => ?_⟩
  rcases hrun.owners id with hsame | hadded
  · refine Or.inr ⟨fun hid => hnew id ?_, hsame⟩
    exact hsame ▸ hrun.ended hended hid
  · exact Or.inl hadded

/-- The owners once the constraints in `done` have been entered. -/
structure Owned (ds : Array (Declaration V)) (cs : Array (ConstraintDef V S)) (done : List Nat)
    (owners : Array (List Nat)) : Prop where
  size : owners.size = ds.size
  sublist : ∀ id, (owners.getD id []).Sublist done
  mem_iff : ∀ i id, i ∈ owners.getD id [] ↔
    i ∈ done ∧ DependsOn (declaredIn ds) (scoreDeclOf cs i) id

theorem owned_nil : Owned ds cs [] (Array.replicate ds.size []) := by
  have hblank : ∀ id, (Array.replicate ds.size ([] : List Nat)).getD id [] = [] := fun id => by
    simp only [Array.getD_eq_getD_getElem?, Array.getElem?_replicate]
    split <;> rfl
  refine ⟨Array.size_replicate, fun id => ?_, fun i id => ?_⟩
  · rw [hblank]
  · simp [hblank]

theorem Owned.add (h : Owned ds cs done owners)
    (hlt : ∀ id c, declaredIn ds id = some c → ∀ p ∈ c.key.parents, p < id)
    (hroot : scoreDeclOf cs index < ds.size) (hnew : index ∉ done) :
    Owned ds cs (done ++ [index]) (addOwner ds cs owners index) := by
  obtain ⟨hsize, hadded⟩ := addOwner_spec hlt hroot h.size fun id hid =>
    hnew ((h.mem_iff index id).mp hid).1
  refine ⟨hsize, fun id => ?_, fun i id => ?_⟩
  · rcases hadded id with ⟨-, hid⟩ | ⟨-, hid⟩
    · exact hid ▸ (h.sublist id).append (.refl _)
    · exact hid ▸ (h.sublist id).trans (List.sublist_append_left ..)
  · rw [List.mem_append, List.mem_singleton]
    rcases hadded id with ⟨hdepends, hid⟩ | ⟨hnot, hid⟩
    · rw [hid, List.mem_append, List.mem_singleton, h.mem_iff]
      constructor
      · rintro (⟨hi, hdep⟩ | rfl)
        · exact ⟨Or.inl hi, hdep⟩
        · exact ⟨Or.inr rfl, hdepends⟩
      · exact fun ⟨hi, hdep⟩ => hi.imp_left (⟨·, hdep⟩)
    · rw [hid, h.mem_iff]
      refine ⟨fun ⟨hi, hdep⟩ => ⟨Or.inl hi, hdep⟩, fun ⟨hi, hdep⟩ => ⟨hi.resolve_right ?_, hdep⟩⟩
      rintro rfl
      exact hnot hdep

theorem Owned.addAll {is : List Nat} (h : Owned ds cs done owners)
    (hlt : ∀ id c, declaredIn ds id = some c → ∀ p ∈ c.key.parents, p < id)
    (hroot : ∀ i ∈ is, scoreDeclOf cs i < ds.size) (hnodup : (done ++ is).Nodup) :
    Owned ds cs (done ++ is) (is.foldl (addOwner ds cs) owners) := by
  induction is generalizing done owners with
  | nil => rwa [List.append_nil]
  | cons i is ih =>
      have hi : i ∉ done := fun hi => (List.nodup_append.mp hnodup).2.2 i hi i List.mem_cons_self rfl
      rw [List.append_cons] at hnodup ⊢
      exact ih (h.add hlt (hroot i List.mem_cons_self) hi)
        (fun j hj => hroot j (List.mem_cons_of_mem i hj)) hnodup

end Owners

section Selecting

variable [Score S] {overrides : WeightOverrides S} {cs : Array (ConstraintDef V S)}
  {done : List Nat} {s s' : Selection V S} {index i : Nat}

omit [Score S] in
/-- Overriding a weight again does not change it. -/
theorem reweigh_reweigh (c : ConstraintDef V S) :
    reweigh overrides (reweigh overrides c) = reweigh overrides c := by
  unfold reweigh WeightOverrides.effective
  cases (overrides.get? c.ref.fullName).or (overrides.get? c.ref.name) <;> rfl

/-- What has become of the constraints `cs` once those in `done` have been selected. -/
structure Selected (overrides : WeightOverrides S) (cs : Array (ConstraintDef V S))
    (done : List Nat) (s : Selection V S) : Prop where
  constraint : ∀ i : Nat, s.constraints[i]? = cs[i]?.map fun c =>
    if i ∈ done then reweigh overrides c else c
  active_iff : ∀ i, i ∈ s.active ↔ i ∈ done ∧
    ∃ c, s.constraints[i]? = some c ∧ Score.isZero c.weight = false

theorem selected_nil : Selected overrides cs [] ⟨cs, []⟩ := ⟨fun i => by simp, fun i => by simp⟩

theorem Selected.size (h : Selected overrides cs done s) : s.constraints.size = cs.size := by
  have hsome : ∀ i : Nat, s.constraints.size ≤ i ↔ cs.size ≤ i := fun i => by
    rw [← Array.getElem?_eq_none_iff, h.constraint, Option.map_eq_none_iff,
      Array.getElem?_eq_none_iff]
  exact Nat.le_antisymm ((hsome _).mpr le_rfl) ((hsome _).mp le_rfl)

theorem Selected.add_eq (h : Selected overrides cs done s) (hlt : index < cs.size) :
    ∃ s', s.add overrides index = .ok s' := by
  have hc := Array.getElem?_eq_getElem (h.size.symm ▸ hlt)
  unfold Selection.add
  rw [hc]
  dsimp only
  split <;> exact ⟨_, rfl⟩

/-- What one more constraint changes: its weight, and which constraints are active if that is not
zero. -/
theorem Selection.add_spec (hok : s.add overrides index = .ok s') :
    ∃ c, s.constraints[index]? = some c ∧
      (∀ i : Nat, s'.constraints[i]? =
        if i = index then some (reweigh overrides c) else s.constraints[i]?) ∧
      ∀ i, i ∈ s'.active ↔
        i ∈ s.active ∨ i = index ∧ Score.isZero (reweigh overrides c).weight = false := by
  unfold Selection.add at hok
  split at hok
  · cases hok
  · rename_i c hc
    have hget : ∀ i : Nat, (s.constraints.setIfInBounds index (reweigh overrides c))[i]? =
        if i = index then some (reweigh overrides c) else s.constraints[i]? := fun i => by
      rw [Array.getElem?_setIfInBounds, if_pos (Array.getElem?_eq_some_iff.mp hc).1]
      simp only [eq_comm]
    refine ⟨c, hc, ?_⟩
    dsimp only at hok
    split at hok
    · rename_i hskip
      obtain rfl := Except.ok.inj hok
      refine ⟨hget, fun i => (or_iff_left_of_imp ?_).symm⟩
      rintro ⟨rfl, hweight⟩
      rw [hweight, Bool.false_or] at hskip
      exact List.contains_iff_mem.mp hskip
    · rename_i hadd
      obtain rfl := Except.ok.inj hok
      refine ⟨hget, fun i => ?_⟩
      have hweight := (Bool.or_eq_false_iff.mp (Bool.not_eq_true _ ▸ hadd)).1
      rw [List.mem_append, List.mem_singleton, and_iff_left hweight]

/-- A constraint that is selected has its effective weight from then on, whether it was selected
before or not. -/
theorem Selected.add (h : Selected overrides cs done s) (hok : s.add overrides index = .ok s') :
    Selected overrides cs (done ++ [index]) s' := by
  obtain ⟨c, hc, hconstraint, hactive⟩ := Selection.add_spec hok
  obtain ⟨k, hk, rfl⟩ := Option.map_eq_some_iff.mp ((h.constraint index).symm.trans hc)
  have hreweigh : reweigh overrides (if index ∈ done then reweigh overrides k else k) =
      reweigh overrides k := by
    split
    · exact reweigh_reweigh k
    · rfl
  rw [hreweigh] at hconstraint hactive
  refine ⟨fun i => ?_, fun i => ?_⟩
  · rw [hconstraint]
    by_cases hi : i = index
    · subst hi
      simp [hk]
    · simp [hi, h.constraint]
  · rw [hactive, hconstraint, h.active_iff]
    by_cases hi : i = index
    · subst hi
      -- One that was active before had the same weight then.
      have hbefore : i ∈ done → s.constraints[i]? = some (reweigh overrides k) := fun hdone => by
        rw [hc, if_pos hdone]
      simp only [List.mem_append, List.mem_singleton, or_true, true_and, if_true,
        Option.some.injEq, exists_eq_left']
      refine or_iff_right_of_imp ?_
      rintro ⟨hdone, c, hc', hweight⟩
      rwa [← Option.some.inj ((hbefore hdone).symm.trans hc')] at hweight
    · simp [hi]

theorem Selected.addAll {is : List Nat} (h : Selected overrides cs done s)
    (hok : is.foldlM (Selection.add overrides) s = .ok s') :
    Selected overrides cs (done ++ is) s' := by
  induction is generalizing done s with
  | nil =>
      obtain rfl := Except.ok.inj hok
      rwa [List.append_nil]
  | cons i is ih =>
      obtain ⟨s₁, hadd, hrest⟩ := Outcome.bind_eq_ok.mp hok
      exact List.append_cons .. ▸ ih (h.add hadd) hrest

theorem Selected.addAll_eq {is : List Nat} (h : Selected overrides cs done s)
    (hlt : ∀ i ∈ is, i < cs.size) : ∃ s', is.foldlM (Selection.add overrides) s = .ok s' := by
  induction is generalizing done s with
  | nil => exact ⟨s, rfl⟩
  | cons i is ih =>
      obtain ⟨s₁, hadd⟩ := h.add_eq (hlt i List.mem_cons_self)
      obtain ⟨s', hrest⟩ := ih (h.add hadd) fun j hj => hlt j (List.mem_cons_of_mem i hj)
      exact ⟨s', Outcome.bind_eq_ok.mpr ⟨s₁, hadd, hrest⟩⟩

variable {b : GraphBuilder V S} {selected selected' : List Nat} {g : DeclarationGraph V S}

theorem selected_of_freeze (h : b.freeze selected overrides = .ok g) :
    ∃ s, Selected overrides b.constraints selected s ∧ b.selectedGraph s = g := by
  obtain ⟨s, hs, hg⟩ := Outcome.bind_eq_ok.mp h
  exact ⟨s, selected_nil.addAll hs, Except.ok.inj hg⟩

/-- Constraints of the graph can be selected. -/
theorem freeze_ok (overrides : WeightOverrides S) (h : ∀ i ∈ selected, i < b.constraints.size) :
    ∃ g, b.freeze selected overrides = .ok g := by
  have hnone : Selected overrides b.constraints [] ⟨b.constraints, []⟩ := selected_nil
  obtain ⟨s, hs⟩ := hnone.addAll_eq h
  exact ⟨_, Outcome.bind_eq_ok.mpr ⟨s, hs, rfl⟩⟩

/-- Only membership among the selected constraints matters. -/
theorem Selected.graph_congr (h : Selected overrides b.constraints selected s)
    (h' : Selected overrides b.constraints selected' s')
    (hsame : ∀ i, i ∈ selected' ↔ i ∈ selected) : b.selectedGraph s' = b.selectedGraph s := by
  have hconstraints : s'.constraints = s.constraints := Array.ext_getElem? fun i => by
    rw [h.constraint, h'.constraint]
    simp only [hsame]
  have hactive : s'.active.contains = s.active.contains := funext fun i => by
    rw [Bool.eq_iff_iff, List.contains_iff_mem, List.contains_iff_mem, h.active_iff, h'.active_iff,
      hsame, hconstraints]
  unfold selectedGraph
  rw [hconstraints, hactive]

theorem freeze_congr (hsame : ∀ i, i ∈ selected' ↔ i ∈ selected)
    (h : ∀ i ∈ selected, i < b.constraints.size) :
    b.freeze selected' overrides = b.freeze selected overrides := by
  obtain ⟨g, hg⟩ := freeze_ok overrides h
  obtain ⟨g', hg'⟩ := freeze_ok overrides fun i hi => h i ((hsame i).mp hi)
  obtain ⟨s, hs, rfl⟩ := selected_of_freeze hg
  obtain ⟨s', hs', rfl⟩ := selected_of_freeze hg'
  rw [hg, hg', hs.graph_congr hs' hsame]

end Selecting

end GraphBuilder

/-- What freezing a graph for some constraints leads to. -/
structure Frozen [Score S] (b : GraphBuilder V S) (selected : List Nat)
    (overrides : WeightOverrides S) (g : DeclarationGraph V S) : Prop where
  declarations : g.declarations = b.declarations
  constraint : ∀ i : Nat, g.constraints[i]? = b.constraints[i]?.map fun c =>
    if i ∈ selected then GraphBuilder.reweigh overrides c else c
  active_iff : ∀ i : Nat, i ∈ g.activeConstraints ↔ i ∈ selected ∧
    ∃ c, g.constraints[i]? = some c ∧ Score.isZero c.weight = false
  active_sorted : g.activeConstraints.Pairwise (· < ·)
  mem_owners : ∀ (i : Nat) id, i ∈ g.ownersOf id ↔ i ∈ g.activeConstraints ∧
    ∃ c, g.constraints[i]? = some c ∧ DependsOn (declaredIn b.declarations) c.scoreDecl id

variable [Score S] {b : GraphBuilder V S} {selected : List Nat} {overrides : WeightOverrides S}
  {g : DeclarationGraph V S} {s : GraphBuilder.Selection V S}

namespace GraphBuilder

theorem Selected.mem_active (h : Selected overrides b.constraints selected s) {i : Nat} :
    i ∈ (b.selectedGraph s).activeConstraints ↔ i ∈ selected ∧
      ∃ c, s.constraints[i]? = some c ∧ Score.isZero c.weight = false := by
  unfold selectedGraph
  rw [List.mem_filter, List.mem_range, List.contains_iff_mem, h.active_iff]
  refine and_iff_right_of_imp ?_
  rintro ⟨-, c, hc, -⟩
  exact (Array.getElem?_eq_some_iff.mp hc).1

theorem Selected.owned (h : Selected overrides b.constraints selected s)
    (hf : Formed b.declarations) (he : b.Ended) :
    Owned b.declarations s.constraints (b.selectedGraph s).activeConstraints
      (b.selectedGraph s).owners := by
  refine owned_nil.addAll hf.parents_lt (fun i hi => ?_) (List.nodup_range.filter _)
  obtain ⟨-, c, hc, -⟩ := h.mem_active.mp hi
  rw [scoreDeclOf, hc]
  rw [h.constraint] at hc
  obtain ⟨k, hk, rfl⟩ := Option.map_eq_some_iff.mp hc
  obtain ⟨p, w, hp⟩ := he.score i k hk
  dsimp only
  rw [apply_ite ConstraintDef.scoreDecl]
  exact (ite_self k.scoreDecl).symm ▸ lt_of_declaredIn hp

/-- Owners come in the order of the constraints. -/
theorem owners_sorted (h : b.freeze selected overrides = .ok g) (hf : Formed b.declarations)
    (he : b.Ended) (id : DeclId) : (g.ownersOf id).Pairwise (· < ·) := by
  obtain ⟨s, hs, rfl⟩ := selected_of_freeze h
  exact (List.pairwise_lt_range.filter _).sublist ((hs.owned hf he).sublist id)

end GraphBuilder

theorem freeze_spec (h : b.freeze selected overrides = .ok g) (hf : Formed b.declarations)
    (he : b.Ended) : Frozen b selected overrides g := by
  obtain ⟨s, hs, rfl⟩ := GraphBuilder.selected_of_freeze h
  refine ⟨rfl, hs.constraint, fun i => hs.mem_active, List.pairwise_lt_range.filter _,
    fun i id => ((hs.owned hf he).mem_iff i id).trans (and_congr_right fun hi => ?_)⟩
  obtain ⟨-, c, hc, -⟩ := hs.mem_active.mp hi
  rw [GraphBuilder.scoreDeclOf, hc]
  constructor
  · exact fun hdepends => ⟨c, hc, hdepends⟩
  · rintro ⟨c', hc', hdepends⟩
    rwa [Option.some.inj (hc.symm.trans hc')]

namespace Frozen

variable {id : DeclId} {c : Candidate V} {i : Nat}

theorem isActive_iff (h : Frozen b selected overrides g) : g.isActive id ↔
    ∃ i ∈ g.activeConstraints, ∃ c, g.constraints[i]? = some c ∧
      DependsOn (declaredIn b.declarations) c.scoreDecl id := by
  unfold DeclarationGraph.isActive
  rw [Bool.not_eq_true', List.isEmpty_eq_false_iff_exists_mem]
  exact exists_congr fun i => h.mem_owners i id

/-- The parents of an active declaration are active. -/
theorem isActive_parent (h : Frozen b selected overrides g) (hid : g.isActive id)
    (hc : declaredIn b.declarations id = some c) {p : DeclId} (hp : p ∈ c.key.parents) :
    g.isActive p := by
  obtain ⟨i, hi, k, hk, hdepends⟩ := h.isActive_iff.mp hid
  exact h.isActive_iff.mpr ⟨i, hi, k, hk, hdepends.parent hc hp⟩

/-- The end of a stream is active exactly if its constraint is. -/
theorem isActive_score (h : Frozen b selected overrides g) (hf : Formed b.declarations)
    (he : b.Ended) (hc : declaredIn b.declarations id = some c) (hop : c.operation = .score i) :
    g.isActive id ↔ i ∈ g.activeConstraints := by
  obtain ⟨k, hk, hend⟩ := he.constraint id c i hc hop
  have hdecl : ∀ {j : Nat} {c' : ConstraintDef V S}, g.constraints[j]? = some c' →
      ∃ k', b.constraints[j]? = some k' ∧ k'.scoreDecl = c'.scoreDecl := by
    intro j c' hc'
    rw [h.constraint] at hc'
    obtain ⟨k', hk', rfl⟩ := Option.map_eq_some_iff.mp hc'
    refine ⟨k', hk', ?_⟩
    split <;> rfl
  rw [h.isActive_iff]
  constructor
  · rintro ⟨j, hj, c', hc', hdepends⟩
    obtain ⟨k', hk', hsame⟩ := hdecl hc'
    obtain ⟨p, w, hp⟩ := he.score j k' hk'
    cases hdepends with
    | self =>
        obtain rfl := Option.some.inj ((hsame ▸ hp).symm.trans hc)
        rwa [← Operation.score.inj hop]
    | parent _ hd hmem => exact absurd hop (hf.ne_score hd hmem hc i)
  · intro hi
    obtain ⟨-, c', hc', -⟩ := (h.active_iff i).mp hi
    obtain ⟨k', hk', hsame⟩ := hdecl hc'
    obtain rfl := Option.some.inj (hk.symm.trans hk')
    exact ⟨i, hi, c', hc', (hsame.symm.trans hend) ▸ .self⟩

end Frozen

end ConstraintScoring
