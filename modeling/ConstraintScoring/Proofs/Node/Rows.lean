import ConstraintScoring.Proofs.Node.Kind
import ConstraintScoring.Proofs.Query.Agreement

/-!
# The rows of nodes that know everything

A node is informed if it knows of all its inputs and of the rows they have now. Then the rows of its
outputs are what its operation makes of the rows of its inputs.
-/

namespace ConstraintScoring

variable {V S : Type}

/-- The rows of some tuples. -/
def rowsOf (ρ : TupleId → Row V) (ts : List TupleId) : Multiset (Row V) := (ts.map ρ : List (Row V))

/-- The node knows exactly the given inputs and the rows that they have. -/
structure Hearing.Informed (h : Hearing) (inputs : Side → List TupleId) : Prop where
  nodup : ∀ σ, (inputs σ).Nodup
  known_iff : ∀ σ t, h.known σ t ↔ t ∈ inputs σ
  fresh : ∀ σ, ∀ t ∈ inputs σ, h.fresh σ t

section Bags

variable {α β γ : Type}

/-- Elements that are answered exactly if they pass. -/
theorem Bag.map_filterMap {f : α → Option β} {g : β → γ} {out : α → γ} {P : α → Prop}
    [DecidablePred P] {s : Multiset α} (hpos : ∀ a ∈ s, P a → ∃ b, f a = some b ∧ g b = out a)
    (hneg : ∀ a ∈ s, ¬P a → f a = none) : (s.filterMap f).map g = (s.filter P).map out := by
  induction s using Multiset.induction_on with
  | empty => rfl
  | cons a s ih =>
      have ih := ih (fun x hx => hpos x (Multiset.mem_cons_of_mem hx))
        fun x hx => hneg x (Multiset.mem_cons_of_mem hx)
      by_cases ha : P a
      · obtain ⟨b, hb, hgb⟩ := hpos a (Multiset.mem_cons_self a s) ha
        rw [Multiset.filterMap_cons_some _ _ _ hb, Multiset.filter_cons_of_pos _ ha,
          Multiset.map_cons, Multiset.map_cons, ih, hgb]
      · rw [Multiset.filterMap_cons_none _ _ (hneg a (Multiset.mem_cons_self a s) ha),
          Multiset.filter_cons_of_neg _ ha, ih]

theorem pairwise_beq_of_nodup [BEq α] [LawfulBEq α] {as : List α} (h : as.Nodup) :
    as.Pairwise fun a b => (a == b) = false :=
  h.imp fun hab => beq_false_of_ne hab

/-- The entries of a table, by keys that each have one. -/
theorem Table.Distinct.rel_entries [BEq α] [LawfulBEq α] {T : Table α β} {P : α → β → Prop}
    {ks : List α} (h : T.Distinct) (hks : ks.Nodup)
    (hcovers : ∀ k b, T.get? k = some b → k ∈ ks)
    (hP : ∀ k ∈ ks, ∃ b, T.get? k = some b ∧ P k b) :
    Multiset.Rel (fun k e => e.1 = k ∧ P k e.2) ks (T.entries : Multiset (α × β)) := by
  have hget : ∀ e ∈ T.entries, T.get? e.1 = some e.2 := fun e he => h.get?_of_mem he BEq.rfl
  have hkeys : T.keys.Nodup := List.pairwise_map.mpr (h.imp ne_of_beq_false)
  have hperm : ks.Perm T.keys := by
    refine (List.perm_ext_iff_of_nodup hks hkeys).mpr fun k => ⟨fun hk => ?_, fun hk => ?_⟩
    · obtain ⟨b, hb, -⟩ := hP k hk
      obtain ⟨l, hl, hlk⟩ := Table.mem_of_get? hb
      exact eq_of_beq hlk ▸ List.mem_map_of_mem hl
    · obtain ⟨e, he, rfl⟩ := List.mem_map.mp hk
      exact hcovers e.1 e.2 (hget e he)
  rw [Multiset.coe_eq_coe.mpr hperm, Table.keys, ← Multiset.map_coe, Multiset.rel_map_left]
  refine Multiset.rel_refl_of_refl_on fun e he => ⟨rfl, ?_⟩
  have hentry := hget e (Multiset.mem_coe.mp he)
  obtain ⟨b, hb, hPb⟩ := hP e.1 (hcovers e.1 e.2 hentry)
  rwa [Option.some.inj (hb.symm.trans hentry)] at hPb

/-- The values of a table, by keys that each have one. -/
theorem Table.Distinct.rel_values [BEq α] [LawfulBEq α] {T : Table α β} {P : α → β → Prop}
    {ks : List α} (h : T.Distinct) (hks : ks.Nodup)
    (hcovers : ∀ k b, T.get? k = some b → k ∈ ks)
    (hP : ∀ k ∈ ks, ∃ b, T.get? k = some b ∧ P k b) :
    Multiset.Rel P ks (T.values : Multiset β) := by
  rw [Table.values, ← Multiset.map_coe, Multiset.rel_map_right]
  exact (h.rel_entries hks hcovers hP).mono fun k _ e _ hke => hke.2

/-- What an element by element list answers. -/
theorem Flattened.filtered {test : α → Except Fault Bool} {xs ys : Multiset α}
    (h : Flattened (fun x => (test x).map fun b => if b then [x] else []) xs ys) :
    Filtered test xs ys := by
  classical
  obtain ⟨lists, hlists, rfl⟩ := h
  unfold Filtered
  induction hlists with
  | zero => exact ⟨fun x hx => absurd hx (Multiset.notMem_zero x), by simp⟩
  | @cons x l xs lists hxl _ ih =>
      obtain ⟨passes, hpass, rfl⟩ := Outcome.map_eq_ok.mp hxl
      refine ⟨fun x' hx' => ?_, ?_⟩
      · rcases Multiset.mem_cons.mp hx' with rfl | hx'
        · exact ⟨passes, hpass⟩
        · exact ih.1 x' hx'
      · cases passes with
        | true => simpa [hpass] using ih.2
        | false => simpa [hpass] using ih.2

theorem Flattened.mapped {f : α → Except Fault β} {xs : Multiset α} {ys : Multiset β}
    (h : Flattened (fun x => (f x).map ([·])) xs ys) : Mapped f xs ys := by
  obtain ⟨lists, hlists, rfl⟩ := h
  induction hlists with
  | zero => exact .zero
  | cons hxl _ ih =>
      obtain ⟨y, hy, rfl⟩ := Outcome.map_eq_ok.mp hxl
      rw [Multiset.cons_bind, Multiset.coe_singleton, Multiset.singleton_add]
      exact .cons hy ih

theorem Flattened.eq_map {f : α → β} {xs : Multiset α} {ys : Multiset β}
    (h : Flattened (fun x => .ok [f x]) xs ys) : ys = xs.map f := by
  obtain ⟨lists, hlists, rfl⟩ := h
  induction hlists with
  | zero => rfl
  | cons hxl _ ih =>
      cases hxl
      rw [Multiset.cons_bind, Multiset.coe_singleton, Multiset.singleton_add, Multiset.map_cons, ih]

end Bags

section Images

variable {κ : Type} {inputOf : κ → TupleId} {outs : κ → List TupleId} {known fresh : κ → Prop}
  {image : Row V → Except Fault (List (Row V))} {ρ : TupleId → Row V} {ks : List κ}
  {O : List TupleId}

/-- The outputs of informed nodes that answer each input on its own. -/
theorem Images.flattened (h : Images inputOf outs known fresh image ρ)
    (hO : O.Perm (ks.flatMap outs)) (hks : ∀ k ∈ ks, fresh k) :
    Flattened (fun k => image (ρ (inputOf k))) ks (rowsOf ρ O) := by
  refine ⟨(ks.map fun k => (outs k).map ρ : List _), ?_, ?_⟩
  · unfold Mapped
    rw [← Multiset.map_coe, Multiset.rel_map_right]
    exact Multiset.rel_refl_of_refl_on fun k hk => h.image k (hks k hk)
  · unfold rowsOf
    rw [Multiset.coe_eq_coe.mpr (hO.map ρ), List.map_flatMap, ← Multiset.coe_bind,
      ← Multiset.map_coe, Multiset.bind_map]

theorem flattened_map {α β γ : Type} {f : β → Except Fault (List γ)} {g : α → β} {xs : Multiset α}
    {ys : Multiset γ} (h : Flattened (fun x => f (g x)) xs ys) : Flattened f (xs.map g) ys := by
  obtain ⟨lists, hlists, hys⟩ := h
  exact ⟨lists, Multiset.rel_map_left.mpr hlists, hys⟩

theorem SingleImages.flattened [BEq κ] [LawfulBEq κ] {T : Table κ TupleId}
    (h : SingleImages T inputOf known fresh image ρ) (hks : ks.Nodup)
    (hknown : ∀ k, known k → k ∈ ks) (hfresh : ∀ k ∈ ks, fresh k) :
    Flattened (fun k => image (ρ (inputOf k))) ks (rowsOf ρ T.values) := by
  refine h.images.flattened ?_ hfresh
  refine (h.distinct.values_perm_filterMap (pairwise_beq_of_nodup hks) fun k x hk => ?_).trans ?_
  · have hout : T.single k ≠ [] := by rw [Table.single_of_some hk]; exact List.cons_ne_nil x []
    exact ⟨k, hknown k (h.images.known k hout), BEq.rfl⟩
  · rw [List.filterMap_eq_flatMap_toList]
    exact List.Perm.refl _

end Images

variable {h : Hearing} {inputs : Side → List TupleId} {ρ : TupleId → Row V}

theorem FilterNode.Books.filtered {n : FilterNode V} (hb : n.Books h ρ) (hi : h.Informed inputs) :
    Filtered n.accepts (rowsOf ρ (inputs .left)) (rowsOf ρ n.outputs.values) :=
  Flattened.filtered (flattened_map (SingleImages.flattened hb (hi.nodup .left)
    (fun t => (hi.known_iff .left t).mp) (hi.fresh .left)))

theorem MapNode.Books.mapped {n : MapNode V} (hb : n.Books h ρ) (hi : h.Informed inputs) :
    Mapped n.image (rowsOf ρ (inputs .left)) (rowsOf ρ n.outputs.values) :=
  Flattened.mapped (flattened_map (SingleImages.flattened hb (hi.nodup .left)
    (fun t => (hi.known_iff .left t).mp) (hi.fresh .left)))

theorem FlattenNode.images_eq (n : FlattenNode V) : n.images = expansion n.expand := by
  funext row
  unfold images expansion
  cases n.expand row <;> rfl

/-- The lists of a table, by keys among which is every one with a list that is not empty. -/
theorem Table.Distinct.flatten_perm {β : Type} {T : Table TupleId (List β)} {ks : List TupleId}
    (h : T.Distinct) (hks : ks.Nodup) (hcovers : ∀ k, T.getD k [] ≠ [] → k ∈ ks) :
    T.values.flatten.Perm (ks.flatMap fun k => T.getD k []) := by
  induction ks generalizing T with
  | nil =>
      have hempty : T.values.flatten = [] := by
        refine List.flatten_eq_nil_iff.mpr fun l hl => ?_
        obtain ⟨k, hk⟩ := h.mem_values_iff.mp hl
        by_contra hne
        have hget : T.getD k [] = l := by unfold Table.getD; rw [hk, Option.getD_some]
        cases hcovers k (hget ▸ hne)
      rw [hempty]
      exact List.Perm.refl _
  | cons k ks ih =>
      obtain ⟨hk, hks⟩ := List.nodup_cons.mp hks
      have hget : ∀ l, (T.erase k).getD l [] = if k = l then [] else T.getD l [] := by
        intro l
        unfold Table.getD
        rw [h.get?_erase]
        by_cases hkl : k = l <;> simp [hkl]
      have hother : ks.flatMap (fun l => (T.erase k).getD l []) = ks.flatMap fun l => T.getD l [] :=
        List.flatMap_congr fun l hl => by rw [hget, if_neg fun hkl : k = l => hk (hkl ▸ hl)]
      have hvalues : T.values.flatten.Perm (T.getD k [] ++ (T.erase k).values.flatten) := by
        have hperm := (T.values_perm k).flatten
        unfold Table.getD
        cases hkv : T.get? k <;> simpa [hkv] using hperm
      rw [List.flatMap_cons, ← hother]
      refine hvalues.trans ((ih (h.erase k) hks fun l hl => ?_).append_left _)
      rw [hget] at hl
      by_cases hkl : k = l
      · rw [if_pos hkl] at hl
        exact absurd rfl hl
      · rw [if_neg hkl] at hl
        exact List.mem_of_ne_of_mem (Ne.symm hkl) (hcovers l hl)

theorem FlattenNode.Books.flattened {n : FlattenNode V} (hb : n.Books h ρ)
    (hi : h.Informed inputs) :
    Flattened (expansion n.expand) (rowsOf ρ (inputs .left)) (rowsOf ρ n.outputIds) := by
  rw [← n.images_eq]
  refine flattened_map (hb.images.flattened ?_ (hi.fresh .left))
  exact hb.distinct.flatten_perm (hi.nodup .left) fun t ht =>
    (hi.known_iff .left t).mp (hb.images.known t ht)

theorem ConcatNode.Books.added {n : ConcatNode} (hb : n.Books h ρ) (hi : h.Informed inputs) :
    rowsOf ρ n.outputs.values = rowsOf ρ (inputs .left) + rowsOf ρ (inputs .right) := by
  let ks := (inputs .left).map (Side.left, ·) ++ (inputs .right).map (Side.right, ·)
  have hmem : ∀ k, k ∈ ks ↔ k.2 ∈ inputs k.1 := by
    rintro ⟨σ, t⟩
    cases σ <;> simp [ks]
  have hks : ks.Nodup := by
    refine List.Nodup.append ?_ ?_ ?_
    · exact (hi.nodup .left).map fun a b hab => (Prod.mk.inj hab).2
    · exact (hi.nodup .right).map fun a b hab => (Prod.mk.inj hab).2
    · intro k hl hr
      obtain ⟨a, -, rfl⟩ := List.mem_map.mp hl
      obtain ⟨b, -, hb⟩ := List.mem_map.mp hr
      cases hb
  have hflat := SingleImages.flattened hb hks
    (fun k hk => (hmem k).mpr ((hi.known_iff k.1 k.2).mp hk))
    fun k hk => hi.fresh k.1 k.2 ((hmem k).mp hk)
  rw [hflat.eq_map]
  simp [ks, rowsOf, Function.comp_def]

section Pairs

variable [Cell V]

/-- Fresh tuples meet exactly if their rows have equal keys. -/
theorem TupleIndex.meet_iff [Std.TransOrd V] {j : JoinIndexer V} {left right : TupleIndex V}
    {l r : TupleId}
    (hl : ∃ k k', left.keys.get? l = some k ∧ j.leftKey (ρ l) = .ok k' ∧ (k == k') = true)
    (hr : ∃ k k', right.keys.get? r = some k ∧ j.rightKey (ρ r) = .ok k' ∧ (k == k') = true) :
    left.Meet right l r ↔ j.Meets (ρ l) (ρ r) := by
  obtain ⟨a, a', hla, hja, haa⟩ := hl
  obtain ⟨b, b', hrb, hjb, hbb⟩ := hr
  constructor
  · rintro ⟨k, k', hk, hk', heq⟩
    rw [hla] at hk
    rw [hrb] at hk'
    cases hk
    cases hk'
    exact ⟨a', b', hja, hjb, BEq.trans (BEq.symm haa) (BEq.trans heq hbb)⟩
  · rintro ⟨k, k', hk, hk', heq⟩
    rw [hja] at hk
    rw [hjb] at hk'
    cases hk
    cases hk'
    exact ⟨a, b, hla, hrb, BEq.trans haa (BEq.trans heq (BEq.symm hbb))⟩

theorem Bag.product_map {α β γ δ : Type} (f : α → γ) (g : β → δ) (s : Multiset α) (t : Multiset β) :
    (s.map f) ×ˢ (t.map g) = (s ×ˢ t).map (Prod.map f g) := by
  simp [SProd.sprod, Multiset.product, Multiset.bind_map, Multiset.map_bind]

omit [Cell V] in
theorem rowsOf_eq_map (ts : List TupleId) : rowsOf ρ ts = (ts : Multiset TupleId).map ρ := rfl

variable [Std.TransOrd V]

/-- If the keys of fresh tuples are those of their rows and the conditions were tried on all that
belong together, they were tried on the rows of all inputs. -/
theorem Hearing.Informed.tried {j : JoinIndexer V} {ix : Side → TupleIndex V}
    (hi : h.Informed inputs)
    (hkeys : ∀ side t, h.fresh side t → ∃ k k', (ix side).keys.get? t = some k ∧
      j.key side (ρ t) = .ok k' ∧ (k == k') = true)
    (hpair : ∀ l r, h.fresh .left l → h.fresh .right r → (ix .left).Meet (ix .right) l r →
      ∃ passes, j.accepts (ρ l) (ρ r) = .ok passes) :
    j.Tried (rowsOf ρ (inputs .left)) (rowsOf ρ (inputs .right)) := by
  have hkey : ∀ side, ∀ row ∈ rowsOf ρ (inputs side), ∃ k, j.key side row = .ok k := by
    intro side row hrow
    obtain ⟨t, ht, rfl⟩ := List.mem_map.mp (Multiset.mem_coe.mp hrow)
    obtain ⟨-, k, -, hk, -⟩ := hkeys side t (hi.fresh side t ht)
    exact ⟨k, hk⟩
  refine ⟨hkey .left, hkey .right, fun row hrow row' hrow' hm => ?_⟩
  obtain ⟨l, hl, rfl⟩ := List.mem_map.mp (Multiset.mem_coe.mp hrow)
  obtain ⟨r, hr, rfl⟩ := List.mem_map.mp (Multiset.mem_coe.mp hrow')
  have hl := hi.fresh .left l hl
  have hr := hi.fresh .right r hr
  exact hpair l r hl hr ((TupleIndex.meet_iff (hkeys .left l hl) (hkeys .right r hr)).mpr hm)

namespace JoinNode

variable {n : JoinNode V}

theorem Books.tried (hb : n.Books h ρ) (hi : h.Informed inputs) :
    n.indexer.Tried (rowsOf ρ (inputs .left)) (rowsOf ρ (inputs .right)) :=
  hi.tried hb.keys fun l r hl hr hlr => by
    obtain ⟨passes, hpass, -⟩ := hb.inLine l r ⟨hl, hr, hlr⟩
    exact ⟨passes, hpass⟩

omit [Std.TransOrd V] in
/-- There is one output for each pair of inputs that has one. -/
theorem Books.outputs_eq (hb : n.Books h ρ) (hi : h.Informed inputs) (hn : n.outputIds.Nodup) :
    (n.outputIds : Multiset TupleId) =
      ((inputs .left : Multiset TupleId) ×ˢ (inputs .right : Multiset TupleId)).filterMap
        fun p => n.outputOf p.1 p.2 := by
  classical
  refine (Multiset.Nodup.ext (Multiset.coe_nodup.mpr hn) ?_).mpr fun x => ?_
  · refine Multiset.Nodup.filterMap _ (fun p p' x hx hx' => ?_) ?_
    · obtain ⟨hl, hr⟩ := hb.paired.outputs.at?_inj hn hx hx'
      exact Prod.ext hl hr
    · exact (Multiset.coe_nodup.mpr (hi.nodup .left)).product
        (Multiset.coe_nodup.mpr (hi.nodup .right))
  · rw [Multiset.mem_coe, show n.outputIds = n.byLeft.leaves from rfl,
      hb.paired.outputs.mem_leaves, Multiset.mem_filterMap]
    constructor
    · rintro ⟨l, r, hout⟩
      have hlr := hb.paired.belong l r x hout
      have hl := (hi.known_iff .left l).mp ((hb.holds .left).known_of_meet_left hlr)
      have hr := (hi.known_iff .right r).mp ((hb.holds .right).known_of_meet_right hlr)
      exact ⟨(l, r), Multiset.mem_product.mpr ⟨hl, hr⟩, hout⟩
    · rintro ⟨⟨l, r⟩, -, hout⟩
      exact ⟨l, r, hout⟩

/-- Of inputs that the join was told everything of, it has outputs for those that belong together. -/
theorem Books.output_iff_joins (hb : n.Books h ρ) {l r : TupleId} (hl : h.fresh .left l)
    (hr : h.fresh .right r) :
    (∃ out, n.outputOf l r = some out) ↔ n.indexer.Joins (ρ l) (ρ r) := by
  have hmeet := TupleIndex.meet_iff (hb.keys .left l hl) (hb.keys .right r hr)
  constructor
  · rintro ⟨out, hout⟩
    have hlr := hb.paired.belong l r out hout
    obtain ⟨passes, hpass, hiff, -⟩ := hb.inLine l r ⟨hl, hr, hlr⟩
    exact ⟨hmeet.mp hlr, hiff.mpr ⟨out, hout⟩ ▸ hpass⟩
  · rintro ⟨hm, ha⟩
    obtain ⟨passes, hpass, hiff, -⟩ := hb.inLine l r ⟨hl, hr, hmeet.mpr hm⟩
    exact hiff.mp (Except.ok.inj (hpass.symm.trans ha))

theorem Books.joined (hb : n.Books h ρ) (hi : h.Informed inputs) (hn : n.outputIds.Nodup) :
    n.indexer.Joined (rowsOf ρ (inputs .left)) (rowsOf ρ (inputs .right))
      (rowsOf ρ n.outputIds) := by
  classical
  refine ⟨hb.tried hi, ?_⟩
  rw [rowsOf_eq_map, hb.outputs_eq hi hn, rowsOf_eq_map, rowsOf_eq_map, Bag.product_map,
    Multiset.filter_map, Multiset.map_map]
  refine Bag.map_filterMap (P := fun p : TupleId × TupleId => n.indexer.Joins (ρ p.1) (ρ p.2))
    (fun p hp hj => ?_) fun p hp hj => ?_
  · obtain ⟨hl, hr⟩ := Multiset.mem_product.mp hp
    obtain ⟨out, hout⟩ :=
      (hb.output_iff_joins (hi.fresh .left _ hl) (hi.fresh .right _ hr)).mpr hj
    have hlr := hb.paired.belong p.1 p.2 out hout
    obtain ⟨-, -, -, hrow⟩ := hb.inLine p.1 p.2 ⟨hi.fresh .left _ hl, hi.fresh .right _ hr, hlr⟩
    exact ⟨out, hout, hrow out hout⟩
  · obtain ⟨hl, hr⟩ := Multiset.mem_product.mp hp
    exact Option.eq_none_iff_forall_ne_some.mpr fun out hout =>
      hj ((hb.output_iff_joins (hi.fresh .left _ hl) (hi.fresh .right _ hr)).mp ⟨out, hout⟩)

end JoinNode

namespace ExistsNode

variable {n : ExistsNode V}

theorem Books.tried (hb : n.Books h ρ) (hi : h.Informed inputs) :
    n.indexer.Tried (rowsOf ρ (inputs .left)) (rowsOf ρ (inputs .right)) :=
  hi.tried hb.keys fun l r hl hr hlr => by
    obtain ⟨passes, hpass, -⟩ := hb.inLine l r hl hr hlr
    exact ⟨passes, hpass⟩

omit [Std.TransOrd V] in
theorem Books.exists_matches (hb : n.Books h ρ) {l : TupleId} {entry : LeftEntry}
    (hl : n.lefts.get? l = some entry) : (∃ r, n.Matches l r) ↔ 0 < entry.count := by
  rw [hb.tally.count l entry hl, List.length_pos_iff_exists_mem]
  constructor
  · rintro ⟨r, entry', hl', hr⟩
    obtain rfl := Option.some.inj (hl.symm.trans hl')
    exact ⟨r, hr⟩
  · exact fun ⟨r, hr⟩ => ⟨r, entry, hl, hr⟩

omit [Std.TransOrd V] in
theorem Books.asked (hb : n.Books h ρ) {l : TupleId} {entry : LeftEntry}
    (hl : n.lefts.get? l = some entry) :
    (∃ out, entry.output = some out) ↔ (0 < entry.count ↔ n.shouldExist = true) := by
  rw [← Option.isSome_iff_exists, hb.tally.settled l entry hl id, beq_iff_eq, Bool.eq_iff_iff,
    bne_iff_ne, Nat.pos_iff_ne_zero]

/-- Inputs that the node was told everything of are matched if they belong together. -/
theorem Books.matches_iff_joins (hb : n.Books h ρ) {l r : TupleId} (hl : h.fresh .left l)
    (hr : h.fresh .right r) : n.Matches l r ↔ n.indexer.Joins (ρ l) (ρ r) := by
  have hmeet := TupleIndex.meet_iff (hb.keys .left l hl) (hb.keys .right r hr)
  constructor
  · intro hlr
    obtain ⟨passes, hpass, hiff⟩ := hb.inLine l r hl hr (hb.belong l r hlr)
    exact ⟨hmeet.mp (hb.belong l r hlr), hiff.mpr hlr ▸ hpass⟩
  · rintro ⟨hm, ha⟩
    obtain ⟨passes, hpass, hiff⟩ := hb.inLine l r hl hr (hmeet.mpr hm)
    exact hiff.mp (Except.ok.inj (hpass.symm.trans ha))

/-- A left tuple is matched with the right tuples whose rows belong together with its own. -/
theorem Books.matches_iff (hb : n.Books h ρ) (hi : h.Informed inputs) {l : TupleId}
    (hl : l ∈ inputs .left) : (∃ r, n.Matches l r) ↔
      ∃ row ∈ rowsOf ρ (inputs .right), n.indexer.Joins (ρ l) row := by
  have hfresh := hi.fresh .left l hl
  constructor
  · rintro ⟨r, hlr⟩
    have hr : r ∈ inputs .right :=
      (hi.known_iff .right r).mp ((hb.holds .right).known_of_meet_right (hb.belong l r hlr))
    exact ⟨ρ r, Multiset.mem_coe.mpr (List.mem_map_of_mem hr),
      (hb.matches_iff_joins hfresh (hi.fresh .right r hr)).mp hlr⟩
  · rintro ⟨row, hrow, hjoins⟩
    obtain ⟨r, hr, rfl⟩ := List.mem_map.mp (Multiset.mem_coe.mp hrow)
    exact ⟨r, (hb.matches_iff_joins hfresh (hi.fresh .right r hr)).mpr hjoins⟩

/-- A left tuple has an output exactly if its row is selected. -/
theorem Books.output_iff (hb : n.Books h ρ) (hi : h.Informed inputs) {l : TupleId}
    (hl : l ∈ inputs .left) : (∃ out, (n.lefts.get? l).bind (·.output) = some out) ↔
      ((∃ row ∈ rowsOf ρ (inputs .right), n.indexer.Joins (ρ l) row) ↔ n.shouldExist = true) := by
  obtain ⟨entry, hentry⟩ := (hb.tally.known_iff l).mpr ((hi.known_iff .left l).mpr hl)
  rw [← hb.matches_iff hi hl, hb.exists_matches hentry, hentry, Option.bind_some]
  exact hb.asked hentry

theorem Books.selected (hb : n.Books h ρ) (hi : h.Informed inputs) :
    n.indexer.Selected n.shouldExist (rowsOf ρ (inputs .left)) (rowsOf ρ (inputs .right))
      (rowsOf ρ n.outputIds) := by
  classical
  refine ⟨hb.tried hi, ?_⟩
  have hcovers : ∀ l entry, n.lefts.get? l = some entry → l ∈ inputs .left := fun l entry hl =>
    (hi.known_iff .left l).mp ((hb.tally.known_iff l).mp ⟨entry, hl⟩)
  have hperm : n.outputIds.Perm ((inputs .left).filterMap fun l =>
      (n.lefts.get? l).bind (·.output)) := by
    have hvalues := hb.tally.distinct.values_perm_filterMap
      (pairwise_beq_of_nodup (hi.nodup .left)) fun l entry hl => ⟨l, hcovers l entry hl, BEq.rfl⟩
    refine (hvalues.filterMap (·.output)).trans ?_
    rw [List.filterMap_filterMap]
  rw [rowsOf_eq_map, Multiset.coe_eq_coe.mpr hperm, rowsOf_eq_map (inputs .left),
    Multiset.filter_map, ← Multiset.filterMap_coe]
  refine Bag.map_filterMap (P := fun l => (∃ row ∈ rowsOf ρ (inputs .right),
    n.indexer.Joins (ρ l) row) ↔ n.shouldExist = true) (fun l hl hP => ?_) fun l hl hP => ?_
  · obtain ⟨out, hout⟩ := (hb.output_iff hi hl).mpr hP
    obtain ⟨entry, hentry, heq⟩ := Option.bind_eq_some_iff.mp hout
    exact ⟨out, hout, hb.shown l entry out hentry heq (hi.fresh .left l hl)⟩
  · exact Option.eq_none_iff_forall_ne_some.mpr fun out hout =>
      hP ((hb.output_iff hi hl).mp ⟨out, hout⟩)

end ExistsNode

namespace GroupNode

variable {n : GroupNode V}

/-- The decimal sums of the groups are exact. -/
def Exact (n : GroupNode V) : Prop :=
  ∀ k entry, n.groups.get? k = some entry →
    AllHold Accumulator.Exact entry.accumulators (n.contributionsWith k)

/-- The decimal sums of the groups are exact, and their means are those of new accumulators that are
given the same contributions. -/
def Precise (n : GroupNode V) : Prop :=
  ∀ k entry, n.groups.get? k = some entry →
    AllHold (fun a bag => a.Exact bag ∧ a.Steady bag) entry.accumulators (n.contributionsWith k)

/-- The decimal sums of the groups of two nodes are exact, and in groups with equal keys the means of
equal sums are the same. -/
structure Comparable (n n' : GroupNode V) : Prop where
  left : n.Exact
  right : n'.Exact
  means : ∀ k entry entry', n.groups.get? k = some entry → n'.groups.get? k = some entry' →
    ∀ p ∈ entry.accumulators.zip entry'.accumulators, p.1.MeansAgree p.2

/-- What some collectors present of what the accumulators of a group hold. -/
structure Presents (n : GroupNode V) (collectors : List (Collector V)) (k : Key V)
    (bag : Multiset (List (Contribution V))) (vs : List V) : Prop where
  kinds : n.kinds = collectors.map (·.kind)
  given : bag = n.contributionsWith k
  entry : ∃ entry, n.groups.get? k = some entry ∧ n.Entry k entry ∧
    vs = List.zipWith (fun c a => c.present a.finish) collectors entry.accumulators

variable {n' : GroupNode V} {collectors : List (Collector V)} {k : Key V}
  {bag : Multiset (List (Contribution V))} {vs : List V}

/-- Groups without decimal places are precise. -/
theorem Books.precise (hb : n.Books h ρ) (hw : n.GivesWhole) : n.Precise := by
  intro k entry hentry
  have he := hb.sound.entry k entry hentry
  refine he.reflects.steady (he.whole hw) fun cs hcs => ?_
  obtain ⟨m, hm, rfl⟩ := Multiset.mem_map.mp hcs
  have hmem := Multiset.mem_coe.mp (Multiset.mem_filter.mp hm).1
  obtain ⟨row, hrow⟩ := hb.sound.origin m hmem
  exact contributions_whole hw hrow (hb.sound.fits m hmem)

theorem Books.exact (hb : n.Books h ρ) (hw : n.GivesWhole) : n.Exact := fun k entry hentry =>
  ((hb.sound.entry k entry hentry).whole hw).mono fun _ _ => Accumulator.WholeSum.exact

/-- Nodes with groups without decimal places can be compared. -/
theorem Books.comparable {h' : Hearing} {ρ' : TupleId → Row V} (hb : n.Books h ρ)
    (hb' : n'.Books h' ρ') (hw : n.GivesWhole) (hw' : n'.GivesWhole) : n.Comparable n' := by
  refine ⟨hb.exact hw, hb'.exact hw', fun k entry entry' hentry hentry' p hp => ?_⟩
  have hwhole := (hb.sound.entry k entry hentry).whole hw
  have hwhole' := (hb'.sound.entry k entry' hentry').whole hw'
  obtain ⟨s, hs⟩ := hwhole.of_mem (List.of_mem_zip hp).1
  obtain ⟨s', hs'⟩ := hwhole'.of_mem (List.of_mem_zip hp).2
  exact hs.meansAgree hs'

/-- What is presented of a precise group is what its collectors show. -/
theorem Presents.shown (h : n.Presents collectors k bag vs) (hp : n.Precise) :
    AllShow collectors bag vs := by
  obtain ⟨hkinds, rfl, entry, hentry, he, rfl⟩ := h
  exact (hkinds ▸ he.reflects).show (hp k entry hentry)

theorem Presents.unnamed (h : n.Presents collectors k bag vs) :
    n.Presents (collectors.map (·.unnamed)) k bag vs := by
  obtain ⟨hkinds, hbag, entry, hentry, he, rfl⟩ := h
  refine ⟨?_, hbag, entry, hentry, he, ?_⟩
  · rw [hkinds, List.map_map]
    rfl
  · rw [List.zipWith_map_left]
    rfl

/-- Groups of nodes that can be compared present equal contributions alike. -/
theorem Comparable.present (h : n.Comparable n')
    (hcollectors : ∀ c ∈ collectors, c.Alike .results) :
    PresentAlike (n.Presents collectors) (n'.Presents collectors) := by
  rintro k k' _ _ _ _ hkk hbag ⟨hkinds, rfl, entry, hentry, he, rfl⟩
    ⟨hkinds', rfl, entry', hentry', he', rfl⟩
  have hsame := (Table.get?_congr _ hkk).trans hentry'
  have hreflects := he.reflects
  have hreflects' := he'.reflects
  rw [hkinds] at hreflects
  rw [hkinds'] at hreflects'
  exact presented_same (hreflects.same hreflects' (h.left k entry hentry)
    (h.right k' entry' hentry') (h.means k entry entry' hentry hsame) hbag)
    fun c hc => (hcollectors c hc).present

theorem Books.gathered (hb : n.Books h ρ) :
    Gathered (n.Presents n.collectors) n.members.values (rowsOf ρ n.outputIds) := by
  have hs := hb.sound
  have hget : ∀ e ∈ n.groups.entries, n.groups.get? e.1 = some e.2 := fun e he =>
    hs.groups_distinct.get?_of_mem he BEq.rfl
  have hkey : ∀ e ∈ n.groups.entries, (Key.mk e.2.keyCells == e.1) = true := fun e he =>
    (hs.entry e.1 e.2 (hget e he)).key
  refine ⟨n.groups.entries.map fun e => ⟨e.2.keyCells⟩, ?_, fun l => ?_, ?_⟩
  · rw [List.pairwise_map]
    refine List.Pairwise.imp_of_mem (fun {a b} ha hb hab => ?_) hs.groups_distinct
    refine Bool.eq_false_iff.mpr fun heq => ?_
    have := BEq.trans (BEq.symm (hkey a ha)) (BEq.trans heq (hkey b hb))
    rw [hab] at this
    cases this
  · constructor
    · rintro ⟨k, hk, hkl⟩
      obtain ⟨e, he, rfl⟩ := List.mem_map.mp hk
      obtain ⟨hpos, -⟩ := hs.settled e.1 e.2 (hget e he) id
      rw [(hs.entry e.1 e.2 (hget e he)).size, Multiset.card_pos_iff_exists_mem] at hpos
      obtain ⟨m, hm⟩ := hpos
      obtain ⟨hm, hmk⟩ := Multiset.mem_filter.mp hm
      exact ⟨m, hm, BEq.trans hmk (BEq.trans (BEq.symm (hkey e he)) hkl)⟩
    · rintro ⟨m, hm, hml⟩
      cases hgl : n.groups.get? l with
      | none =>
          have hmem : m ∈ n.membersWith l := Multiset.mem_filter.mpr ⟨hm, hml⟩
          rw [hs.absent l hgl] at hmem
          exact absurd hmem (Multiset.notMem_zero m)
      | some entry =>
          obtain ⟨k, hmem, hkl⟩ := Table.mem_of_get? hgl
          exact ⟨_, List.mem_map_of_mem hmem, BEq.trans (hkey _ hmem) hkl⟩
  · have hrows : n.outputIds.map ρ = n.groups.entries.map fun e => n.rowOf e.2 := by
      unfold outputIds Table.values
      rw [List.filterMap_map, List.map_filterMap, ← List.filterMap_eq_map]
      refine List.filterMap_congr fun e he => ?_
      obtain ⟨-, out, hout, hrow⟩ := hs.settled e.1 e.2 (hget e he) id
      simp [hout, hrow]
    rw [rowsOf, hrows, ← Multiset.map_coe, ← Multiset.map_coe, Multiset.rel_map]
    refine Multiset.rel_refl_of_refl_on fun e he => ?_
    refine ⟨_, ⟨rfl, rfl, e.2, ?_, ?_, rfl⟩, rfl⟩
    · rw [Table.get?_congr _ (hkey e he), hget e he]
    · exact (hs.entry e.1 e.2 (hget e he)).of_beq (BEq.symm (hkey e he))

theorem Books.grouped (hb : n.Books h ρ) (hi : h.Informed inputs) :
    Grouped n.keys n.collectors (n.Presents n.collectors) (rowsOf ρ (inputs .left))
      (rowsOf ρ n.outputIds) := by
  refine ⟨n.members.values, ?_, hb.gathered⟩
  refine Multiset.rel_map_left.mpr (hb.sound.members_distinct.rel_values (hi.nodup .left)
    (fun t m ht => (hi.known_iff .left t).mp ((hb.known_iff t).mp ⟨m, ht⟩)) fun t ht => ?_)
  obtain ⟨m, hm, hok⟩ := hb.fresh t (hi.fresh .left t ht)
  exact ⟨m, hm, hok⟩

end GroupNode

end Pairs

/-- The rows that a node scores, each with its impact. -/
def ScoreNode.scored (n : ScoreNode V S) (ρ : TupleId → Row V) : Multiset (Row V × S) :=
  (n.impacts.entries.map fun e => (ρ e.1, e.2) : List (Row V × S))

theorem ScoreNode.bag_eq_scored [Score S] (n : ScoreNode V S) (ρ : TupleId → Row V) :
    n.bag = (n.scored ρ).map (·.2) := by
  unfold bag scored Table.values
  rw [Multiset.map_coe, List.map_map]
  rfl

theorem ScoreNode.Books.scored [Score S] {n : ScoreNode V S} (hb : n.Books h ρ)
    (hi : h.Informed inputs) :
    Mapped (fun row => (n.impactOf row).map (row, ·)) (rowsOf ρ (inputs .left)) (n.scored ρ) := by
  unfold Mapped ScoreNode.scored rowsOf
  rw [← Multiset.map_coe, ← Multiset.map_coe, Multiset.rel_map_left, Multiset.rel_map_right]
  refine (hb.distinct.rel_entries (hi.nodup .left)
    (fun t a ht => (hi.known_iff .left t).mp ((hb.known_iff t).mp ⟨a, ht⟩)) fun t ht =>
      hb.fresh t (hi.fresh .left t ht)).mono ?_
  rintro t - e - ⟨rfl, ha⟩
  exact congrArg (Except.map (ρ e.1, ·)) ha

section Sources

variable [Cell V] [Std.TransOrd V]

/-- The facts in a table of facts. -/
def factsIn (facts : Table (FactKey V) V) : Multiset (Fact V) :=
  (facts.entries.map fun e => e.1.fact e.2 : List (Fact V))

theorem SourceNode.Reflects.shown {n : SourceNode V} {facts : Table (FactKey V) V}
    (hr : n.Reflects facts ρ) (hd : facts.Distinct) : ∃ shown,
      Filtered n.accepts ((factsIn facts).filter (·.type = n.type)) shown ∧
        rowsOf ρ n.outputs.values = shown.map fun f => [f.cell] := by
  classical
  have hget : ∀ e ∈ facts.entries, facts.get? e.1 = some e.2 := fun e he => hd.get?_of_mem he BEq.rfl
  refine ⟨_, ⟨fun f hf => ?_, rfl⟩, ?_⟩
  · obtain ⟨hf, htype⟩ := Multiset.mem_filter.mp hf
    obtain ⟨e, he, rfl⟩ := List.mem_map.mp (Multiset.mem_coe.mp hf)
    obtain ⟨passes, hpass, -⟩ := hr.accepts e.1 e.2 htype (hget e he)
    exact ⟨passes, hpass⟩
  · have hperm : n.outputs.values.Perm (facts.entries.filterMap fun e => n.outputs.get? e.1) := by
      have hkeys : facts.keys.Pairwise fun k l => (k == l) = false := List.pairwise_map.mpr hd
      have hvalues := hr.distinct.values_perm_filterMap hkeys fun k out hk => by
        obtain ⟨-, cell, hcell⟩ := hr.backed k out hk
        obtain ⟨k', hmem, hkk⟩ := Table.mem_of_get? hcell
        exact ⟨k', List.mem_map_of_mem hmem, hkk⟩
      rwa [Table.keys, List.filterMap_map] at hvalues
    rw [rowsOf_eq_map, Multiset.coe_eq_coe.mpr hperm, ← Multiset.filterMap_coe, factsIn,
      ← Multiset.map_coe, Multiset.filter_map, Multiset.filter_map, Multiset.map_map,
      Multiset.filter_filter]
    refine Bag.map_filterMap (P := fun e : FactKey V × V => n.accepts (e.1.fact e.2) = .ok true ∧
      e.1.type = n.type) (fun e he hP => ?_) fun e he hP => ?_
    · obtain ⟨passes, hpass, hiff, hrow⟩ := hr.accepts e.1 e.2 hP.2 (hget e he)
      obtain ⟨out, hout⟩ := hiff.mp (Except.ok.inj (hpass.symm.trans hP.1))
      exact ⟨out, hout, hrow out hout⟩
    · refine Option.eq_none_iff_forall_ne_some.mpr fun out hout => hP ?_
      obtain ⟨htype, -⟩ := hr.backed e.1 out hout
      obtain ⟨passes, hpass, hiff, -⟩ := hr.accepts e.1 e.2 htype (hget e he)
      exact ⟨hiff.mpr ⟨out, hout⟩ ▸ hpass, htype⟩

end Sources

end ConstraintScoring
