import Mathlib.Data.Multiset.Bind
import Mathlib.Data.Multiset.Filter

/-!
# Multisets up to a relation

Two multisets are related if their elements are, one by one, in some order. Filtering, and taking
away elements that are related, keeps them so.
-/

namespace ConstraintScoring.Bag

variable {α β γ δ : Type} {r : α → β → Prop}

theorem rel_filter {p : α → Prop} {q : β → Prop} [DecidablePred p] [DecidablePred q]
    {s : Multiset α} {t : Multiset β} (h : Multiset.Rel r s t) (hpq : ∀ a b, r a b → (p a ↔ q b)) :
    Multiset.Rel r (s.filter p) (t.filter q) := by
  induction h with
  | zero => exact .zero
  | @cons a b s t hab _ ih =>
      by_cases ha : p a
      · rw [Multiset.filter_cons_of_pos _ ha, Multiset.filter_cons_of_pos _ ((hpq a b hab).mp ha)]
        exact .cons hab ih
      · have hb : ¬q b := fun hb => ha ((hpq a b hab).mpr hb)
        rwa [Multiset.filter_cons_of_neg _ ha, Multiset.filter_cons_of_neg _ hb]

theorem rel_filterMap {r' : γ → δ → Prop} {f : α → Option γ} {g : β → Option δ} {s : Multiset α}
    {t : Multiset β} (h : Multiset.Rel r s t) (hfg : ∀ a b, r a b → Option.Rel r' (f a) (g b)) :
    Multiset.Rel r' (s.filterMap f) (t.filterMap g) := by
  induction h with
  | zero => exact .zero
  | @cons a b s t hab _ ih =>
      have hrel := hfg a b hab
      cases ha : f a with
      | none =>
          rw [ha] at hrel
          cases hb : g b with
          | none => rwa [Multiset.filterMap_cons_none _ _ ha, Multiset.filterMap_cons_none _ _ hb]
          | some d => rw [hb] at hrel; cases hrel
      | some c =>
          rw [ha] at hrel
          cases hb : g b with
          | none => rw [hb] at hrel; cases hrel
          | some d =>
              rw [hb] at hrel
              cases hrel with
              | some hcd =>
                  rw [Multiset.filterMap_cons_some _ _ _ ha, Multiset.filterMap_cons_some _ _ _ hb]
                  exact .cons hcd ih

theorem rel_map_of {r' : γ → δ → Prop} {f : α → γ} {g : β → δ} {s : Multiset α} {t : Multiset β}
    (h : Multiset.Rel r s t) (hfg : ∀ a b, r a b → r' (f a) (g b)) :
    Multiset.Rel r' (s.map f) (t.map g) :=
  Multiset.rel_map.mpr (h.mono fun a _ b _ hab => hfg a b hab)

/-- Related elements can be taken away on both sides. -/
theorem rel_cancel {r : α → α → Prop} (hr : Equivalence r) {a b : α} {s t : Multiset α}
    (h : Multiset.Rel r (a ::ₘ s) (b ::ₘ t)) (hab : r a b) : Multiset.Rel r s t := by
  have : IsTrans α r := ⟨fun _ _ _ => hr.trans⟩
  obtain ⟨c, u, hac, hsu, heq⟩ := Multiset.rel_cons_left.mp h
  rcases Multiset.cons_eq_cons.mp heq with ⟨rfl, rfl⟩ | ⟨-, v, rfl, rfl⟩
  · exact hsu
  · have hbc : Multiset.Rel r (b ::ₘ v) (c ::ₘ v) :=
      .cons (hr.trans (hr.symm hab) hac) (Multiset.rel_refl_of_refl_on fun x _ => hr.refl x)
    exact hsu.trans r hbc

theorem rel_symm {r : α → α → Prop} (hr : Equivalence r) {s t : Multiset α}
    (h : Multiset.Rel r s t) : Multiset.Rel r t s :=
  Multiset.rel_flip.mp (h.mono fun _ _ _ _ => hr.symm)

theorem rel_trans {r : α → α → Prop} (hr : Equivalence r) {s t u : Multiset α}
    (h : Multiset.Rel r s t) (h' : Multiset.Rel r t u) : Multiset.Rel r s u := by
  have : IsTrans α r := ⟨fun _ _ _ => hr.trans⟩
  exact h.trans r h'

theorem rel_refl {r : α → α → Prop} (hr : Equivalence r) (s : Multiset α) : Multiset.Rel r s s :=
  Multiset.rel_refl_of_refl_on fun x _ => hr.refl x

/-- What is related to a member of one multiset, with the members that they are. -/
theorem rel_mem {s : Multiset α} {t : Multiset β} (h : Multiset.Rel r s t) :
    Multiset.Rel (fun a b => r a b ∧ a ∈ s ∧ b ∈ t) s t :=
  h.mono fun _ ha _ hb hab => ⟨hab, ha, hb⟩

theorem rel_comp {r' : β → γ → Prop} {s : Multiset α} {t : Multiset β} {u : Multiset γ}
    (h : Multiset.Rel r s t) (h' : Multiset.Rel r' t u) :
    Multiset.Rel (fun a c => ∃ b, r a b ∧ r' b c) s u := by
  induction h generalizing u with
  | zero =>
      rw [Multiset.rel_zero_left.mp h']
      exact .zero
  | cons hab _ ih =>
      obtain ⟨c, u, hbc, hu, rfl⟩ := Multiset.rel_cons_left.mp h'
      exact .cons ⟨_, hab, hbc⟩ (ih hu)

/-- Multisets that are related to related ones are related. -/
theorem rel_square {p : α → γ → Prop} {q : β → δ → Prop} {r' : γ → δ → Prop} {s : Multiset α}
    {t : Multiset β} {u : Multiset γ} {v : Multiset δ} (h : Multiset.Rel r s t)
    (hp : Multiset.Rel p s u) (hq : Multiset.Rel q t v)
    (hr : ∀ a b c d, r a b → p a c → q b d → r' c d) : Multiset.Rel r' u v := by
  have hflip : Multiset.Rel (flip p) u s := Multiset.rel_flip.mpr hp
  refine (rel_comp hflip (rel_comp h hq)).mono fun c _ d _ hcd => ?_
  obtain ⟨a, hac, b, hab, hbd⟩ := hcd
  exact hr a b c d hab hac hbd

theorem rel_product {r' : γ → δ → Prop} {s : Multiset α} {t : Multiset β} {u : Multiset γ}
    {v : Multiset δ} (h : Multiset.Rel r s t) (h' : Multiset.Rel r' u v) :
    Multiset.Rel (fun x y : _ × _ => r x.1 y.1 ∧ r' x.2 y.2) (s ×ˢ u) (t ×ˢ v) := by
  refine Multiset.rel_bind (fun a b hab => ?_) h
  exact rel_map_of h' fun c d hcd => ⟨hab, hcd⟩

/-- Lists without related elements that have the same elements up to the relation are related. -/
theorem rel_of_covers {r : α → α → Prop} (hr : Equivalence r) {as bs : List α}
    (ha : as.Pairwise fun a b => ¬r a b) (hb : bs.Pairwise fun a b => ¬r a b)
    (h : ∀ c, (∃ a ∈ as, r a c) ↔ ∃ b ∈ bs, r b c) : Multiset.Rel r (as : Multiset α) bs := by
  induction as generalizing bs with
  | nil =>
      cases bs with
      | nil => exact .zero
      | cons b bs =>
          obtain ⟨a, ha, -⟩ := (h b).mpr ⟨b, List.mem_cons_self, hr.refl b⟩
          cases ha
  | cons a as ih =>
      obtain ⟨b, hmem, hba⟩ := (h a).mp ⟨a, List.mem_cons_self, hr.refl a⟩
      obtain ⟨before, after, rfl⟩ := List.append_of_mem hmem
      have hperm : (before ++ b :: after).Perm (b :: (before ++ after)) := List.perm_middle
      have hsymm : ∀ {x y : α}, ¬r x y → ¬r y x := fun hxy hyx => hxy (hr.symm hyx)
      obtain ⟨hbnot, hrest⟩ := List.pairwise_cons.mp (hb.perm hperm hsymm)
      obtain ⟨hanot, has⟩ := List.pairwise_cons.mp ha
      rw [Multiset.coe_eq_coe.mpr hperm]
      refine .cons (hr.symm hba) (ih has hrest fun c => ?_)
      have hc := h c
      constructor
      · rintro ⟨x, hx, hxc⟩
        obtain ⟨y, hy, hyc⟩ := hc.mp ⟨x, List.mem_cons_of_mem a hx, hxc⟩
        rcases List.mem_cons.mp (hperm.mem_iff.mp hy) with rfl | hy
        · exact absurd (hr.trans (hr.symm hba) (hr.trans hyc (hr.symm hxc))) (hanot x hx)
        · exact ⟨y, hy, hyc⟩
      · rintro ⟨y, hy, hyc⟩
        obtain ⟨x, hx, hxc⟩ :=
          hc.mpr ⟨y, hperm.mem_iff.mpr (List.mem_cons_of_mem b hy), hyc⟩
        rcases List.mem_cons.mp hx with rfl | hx
        · exact absurd (hr.trans hba (hr.trans hxc (hr.symm hyc))) (hbnot y hy)
        · exact ⟨x, hx, hxc⟩

end ConstraintScoring.Bag
