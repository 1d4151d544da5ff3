import ConstraintScoring.Proofs.Query.Alike

/-!
# What equal facts make of a query

Every operation on multisets of rows takes equal rows to equal rows, if its functions treat equal
rows alike. So over equal facts a query yields equal rows, as long as its groups present equal
contributions alike.
-/

namespace ConstraintScoring

variable {V α β γ δ : Type}

section Steps

variable {R : γ → δ → Prop} {p : α → β → Prop} {xs : Multiset α} {xs' : Multiset β}

theorem Mapped.agree {f : α → Except Fault γ} {g : β → Except Fault δ} {ys : Multiset γ}
    {ys' : Multiset δ} (h : Mapped f xs ys) (h' : Mapped g xs' ys') (hxs : Multiset.Rel p xs xs')
    (hfg : ∀ x x', p x x' → Likeness.results.Agree R (f x) (g x')) : Multiset.Rel R ys ys' :=
  Bag.rel_square hxs h h' fun x x' y y' hx hy hy' => (hfg x x' hx).results y y' hy hy'

theorem Filtered.agree {test : α → Except Fault Bool} {test' : β → Except Fault Bool}
    {ys : Multiset α} {ys' : Multiset β} (h : Filtered test xs ys) (h' : Filtered test' xs' ys')
    (hxs : Multiset.Rel p xs xs')
    (htest : ∀ x x', p x x' → Likeness.results.Agree Eq (test x) (test' x')) :
    Multiset.Rel p ys ys' := by
  obtain ⟨htried, rfl⟩ := h
  obtain ⟨htried', rfl⟩ := h'
  refine (Bag.rel_filter (Bag.rel_mem hxs) fun x x' hx => ?_).mono fun x _ x' _ hx => hx.1
  obtain ⟨passes, hpass⟩ := htried x hx.2.1
  obtain ⟨passes', hpass'⟩ := htried' x' hx.2.2
  have heq := (htest x x' hx.1).results passes passes' hpass hpass'
  rw [hpass, hpass', heq]

theorem rel_coe {as : List γ} {bs : List δ} (h : List.Forall₂ R as bs) :
    Multiset.Rel R (as : Multiset γ) bs := by
  induction h with
  | nil => exact .zero
  | cons hab _ ih => exact .cons hab ih

theorem Flattened.agree {f : α → Except Fault (List γ)} {g : β → Except Fault (List δ)}
    {ys : Multiset γ} {ys' : Multiset δ} (h : Flattened f xs ys) (h' : Flattened g xs' ys')
    (hxs : Multiset.Rel p xs xs')
    (hfg : ∀ x x', p x x' → Likeness.results.Agree (List.Forall₂ R) (f x) (g x')) :
    Multiset.Rel R ys ys' := by
  obtain ⟨lists, hlists, rfl⟩ := h
  obtain ⟨lists', hlists', rfl⟩ := h'
  exact Multiset.rel_bind (fun _ _ => rel_coe) (hlists.agree hlists' hxs hfg)

end Steps

variable [Cell V] {k : Likeness}

theorem sameAll_dropLast {row row' : Row V} (h : SameRow row row') :
    SameRow row.dropLast row'.dropLast := by
  have hlen := Cell.sameAll_length h
  rw [SameRow, Cell.sameAll_iff] at h ⊢
  rw [List.dropLast_eq_take, List.dropLast_eq_take, hlen]
  exact List.forall₂_take _ h

theorem expansion_alike {expand : Row V → Except Fault (List V)}
    (h : Alike k (List.Forall₂ SameCell) expand) :
    Alike k (List.Forall₂ SameRow) (expansion expand) := by
  intro row row' hrow
  refine (h row row' hrow).bind fun items items' hitems => Likeness.agree_ok ?_
  rw [List.forall₂_map_left_iff, List.forall₂_map_right_iff]
  exact hitems.imp fun v v' hv =>
    Cell.sameAll_append (sameAll_dropLast hrow) (Cell.sameAll_iff.mpr (.cons hv .nil))

theorem columns_alike {columns : List (Row V → Except Fault V)}
    (h : ∀ f ∈ columns, Alike k SameCell f) :
    Alike k SameRow fun row => columns.mapM (· row) := fun row row' hrow =>
  (Likeness.agree_mapM fun f hf => h f hf row row' hrow).mono fun _ _ => Cell.sameAll_iff.mpr

namespace JoinIndexer

variable {j : JoinIndexer V} {l l' r r' : Row V}

theorem Alike.key (h : j.Alike k) (side : Side) :
    ConstraintScoring.Alike k (fun a b => (a == b) = true) (j.key side) := by
  intro row row' hrow
  cases side with
  | left =>
      exact (columns_alike h.left row row' hrow).bind fun _ _ hcells => Likeness.agree_ok hcells
  | right =>
      exact (columns_alike h.right row row' hrow).bind fun _ _ hcells => Likeness.agree_ok hcells

theorem Alike.accepts (h : j.Alike k) (hl : SameRow l l') (hr : SameRow r r') :
    k.Agree Eq (j.accepts l r) (j.accepts l' r') := by
  have hall : ∀ cs : List (PairCondition V),
      (∀ c ∈ cs, k.Agree Eq (c l r) (c l' r')) → k.Agree Eq (allHold cs l r) (allHold cs l' r') := by
    intro cs hcs
    induction cs with
    | nil => exact Likeness.agree_ok rfl
    | cons c cs ih =>
        refine (hcs c List.mem_cons_self).bind fun passes passes' heq => ?_
        subst heq
        cases passes with
        | true => exact ih fun d hd => hcs d (List.mem_cons_of_mem c hd)
        | false => exact Likeness.agree_ok rfl
  exact hall j.conditions fun c hc => h.conditions c hc l l' r r' hl hr

variable [Std.TransOrd V] {L L' R R' O O' : Multiset (Row V)}

theorem Alike.meets (h : j.Alike .results) (ht : j.Tried L R) (ht' : j.Tried L' R') (hl : l ∈ L)
    (hr : r ∈ R) (hl' : l' ∈ L') (hr' : r' ∈ R') (hll : SameRow l l') (hrr : SameRow r r') :
    j.Meets l r ↔ j.Meets l' r' := by
  obtain ⟨kl, hkl⟩ := ht.left l hl
  obtain ⟨kr, hkr⟩ := ht.right r hr
  obtain ⟨kl', hkl'⟩ := ht'.left l' hl'
  obtain ⟨kr', hkr'⟩ := ht'.right r' hr'
  have hleft := (h.key .left l l' hll).results kl kl' hkl hkl'
  have hright := (h.key .right r r' hrr).results kr kr' hkr hkr'
  constructor
  · rintro ⟨k, k', hk, hk', heq⟩
    rw [hkl] at hk
    rw [hkr] at hk'
    cases hk
    cases hk'
    exact ⟨kl', kr', hkl', hkr', BEq.trans (BEq.symm hleft) (BEq.trans heq hright)⟩
  · rintro ⟨k, k', hk, hk', heq⟩
    rw [hkl'] at hk
    rw [hkr'] at hk'
    cases hk
    cases hk'
    exact ⟨kl, kr, hkl, hkr, BEq.trans hleft (BEq.trans heq (BEq.symm hright))⟩

/-- Whether rows belong together depends on them up to equality only. -/
theorem Alike.joins (h : j.Alike .results) (ht : j.Tried L R) (ht' : j.Tried L' R') (hl : l ∈ L)
    (hr : r ∈ R) (hl' : l' ∈ L') (hr' : r' ∈ R') (hll : SameRow l l') (hrr : SameRow r r') :
    j.Joins l r ↔ j.Joins l' r' := by
  have hmeets := h.meets ht ht' hl hr hl' hr' hll hrr
  have hpass : j.Meets l r → (j.accepts l r = .ok true ↔ j.accepts l' r' = .ok true) := by
    intro hm
    obtain ⟨passes, hp⟩ := ht.pair l hl r hr hm
    obtain ⟨passes', hp'⟩ := ht'.pair l' hl' r' hr' (hmeets.mp hm)
    rw [hp, hp', (h.accepts hll hrr).results passes passes' hp hp']
  constructor
  · rintro ⟨hm, ha⟩
    exact ⟨hmeets.mp hm, (hpass hm).mp ha⟩
  · rintro ⟨hm, ha⟩
    exact ⟨hmeets.mpr hm, (hpass (hmeets.mpr hm)).mpr ha⟩

theorem Joined.agree (hO : j.Joined L R O) (hO' : j.Joined L' R' O') (h : j.Alike .results)
    (hL : Multiset.Rel SameRow L L') (hR : Multiset.Rel SameRow R R') :
    Multiset.Rel SameRow O O' := by
  classical
  obtain ⟨ht, rfl⟩ := hO
  obtain ⟨ht', rfl⟩ := hO'
  have hpairs := Bag.rel_filter (p := fun x => j.Joins x.1 x.2) (q := fun x => j.Joins x.1 x.2)
    (Bag.rel_product (Bag.rel_mem hL) (Bag.rel_mem hR)) fun x y hxy =>
      h.joins ht ht' hxy.1.2.1 hxy.2.2.1 hxy.1.2.2 hxy.2.2.2 hxy.1.1 hxy.2.1
  exact Bag.rel_map_of hpairs fun x y hxy => Cell.sameAll_append hxy.1.1 hxy.2.1

theorem Selected.agree {shouldExist : Bool} (hO : j.Selected shouldExist L R O)
    (hO' : j.Selected shouldExist L' R' O') (h : j.Alike .results)
    (hL : Multiset.Rel SameRow L L') (hR : Multiset.Rel SameRow R R') :
    Multiset.Rel SameRow O O' := by
  classical
  obtain ⟨ht, rfl⟩ := hO
  obtain ⟨ht', rfl⟩ := hO'
  have hR' : Multiset.Rel SameRow R' R :=
    Multiset.rel_flip.mp (hR.mono fun _ _ _ _ => Cell.sameAll_symm)
  refine (Bag.rel_filter (Bag.rel_mem hL) fun l l' hll => ?_).mono fun _ _ _ _ hll => hll.1
  refine iff_congr ?_ Iff.rfl
  constructor
  · rintro ⟨r, hr, hj⟩
    obtain ⟨r', hr', hrr⟩ := Multiset.exists_mem_of_rel_of_mem hR hr
    exact ⟨r', hr', (h.joins ht ht' hll.2.1 hr hll.2.2 hr' hll.1 hrr).mp hj⟩
  · rintro ⟨r', hr', hj⟩
    obtain ⟨r, hr, hrr⟩ := Multiset.exists_mem_of_rel_of_mem hR' hr'
    exact ⟨r, hr, (h.joins ht ht' hll.2.1 hr hll.2.2 hr' hll.1 (Cell.sameAll_symm hrr)).mpr hj⟩

end JoinIndexer

section Groups

variable {keys : List (Row V → Except Fault V)} {collectors : List (Collector V)}

theorem membership_alike (hkeys : ∀ f ∈ keys, Alike k SameCell f)
    (hcollectors : ∀ c ∈ collectors, c.Alike k) :
    Alike k SameMember (membership keys collectors) := by
  intro row row' hrow
  refine (columns_alike hkeys row row' hrow).bind fun cells cells' hcells => ?_
  have hcontributions : k.Agree (List.Forall₂ Contribution.Same)
      (collectors.mapM (·.contribution.run row)) (collectors.mapM (·.contribution.run row')) :=
    Likeness.agree_mapM fun c hc => (hcollectors c hc).contribution row row' hrow
  exact hcontributions.bind fun cs cs' hcs => Likeness.agree_ok ⟨hcells, hcs⟩

variable [Std.TransOrd V] {members members' : Multiset (GroupMember V)} {O O' : Multiset (Row V)}

theorem exists_member_congr (h : Multiset.Rel SameMember members members') (l : Key V) :
    (∃ m ∈ members, (m.key == l) = true) → ∃ m ∈ members', (m.key == l) = true := by
  rintro ⟨m, hm, hml⟩
  obtain ⟨m', hm', hmm⟩ := Multiset.exists_mem_of_rel_of_mem h hm
  exact ⟨m', hm', BEq.trans (BEq.symm hmm.key) hml⟩

theorem contributionsOf_congr (h : Multiset.Rel SameMember members members') {l l' : Key V}
    (hl : (l == l') = true) : Multiset.Rel (List.Forall₂ Contribution.Same)
      (contributionsOf members l) (contributionsOf members' l') := by
  refine Bag.rel_map_of (Bag.rel_filter h fun m m' hm => ?_) fun m m' hm => hm.contributions
  constructor
  · exact fun hml => BEq.trans (BEq.symm hm.key) (BEq.trans hml hl)
  · exact fun hml => BEq.trans hm.key (BEq.trans hml (BEq.symm hl))

theorem sameMember_symm {m m' : GroupMember V} (h : SameMember m m') : SameMember m' m where
  key := BEq.symm h.key
  contributions := (h.contributions.imp fun _ _ => Contribution.same_equivalence.symm).flip

/-- Two ways to present what a group was given present equal contributions alike. -/
def PresentAlike (P P' : Key V → Multiset (List (Contribution V)) → List V → Prop) : Prop :=
  ∀ l l' bag bag' vs vs', (l == l') = true →
    Multiset.Rel (List.Forall₂ Contribution.Same) bag bag' → P l bag vs → P' l' bag' vs' →
      Cell.sameAll vs vs' = true

theorem Gathered.agree {P P' : Key V → Multiset (List (Contribution V)) → List V → Prop}
    (h : Gathered P members O) (h' : Gathered P' members' O') (hP : PresentAlike P P')
    (hmembers : Multiset.Rel SameMember members members') : Multiset.Rel SameRow O O' := by
  obtain ⟨ks, hdistinct, hcovers, hrows⟩ := h
  obtain ⟨ks', hdistinct', hcovers', hrows'⟩ := h'
  have hback : Multiset.Rel SameMember members' members :=
    Multiset.rel_flip.mp (hmembers.mono fun _ _ _ _ => sameMember_symm)
  have hequiv : Equivalence fun a b : Key V => (a == b) = true :=
    ⟨fun _ => BEq.rfl, BEq.symm, BEq.trans⟩
  have hks : Multiset.Rel (fun a b : Key V => (a == b) = true) ks ks' := by
    refine Bag.rel_of_covers hequiv (hdistinct.imp fun h => by simp [h])
      (hdistinct'.imp fun h => by simp [h]) fun l => ?_
    rw [hcovers l, hcovers' l]
    exact ⟨exists_member_congr hmembers l, exists_member_congr hback l⟩
  refine Bag.rel_square hks hrows hrows' fun l l' row row' hl hrow hrow' => ?_
  obtain ⟨shown, hshow, rfl⟩ := hrow
  obtain ⟨shown', hshow', rfl⟩ := hrow'
  exact Cell.sameAll_append hl
    (hP l l' _ _ shown shown' hl (contributionsOf_congr hmembers hl) hshow hshow')

end Groups

/-- The groups of two presentations present equal contributions alike, if their collectors present
equal things alike. -/
def Presentation.Agree (P P' : Presentation V) : Prop :=
  ∀ path collectors, (∀ c ∈ collectors, c.Alike .results) →
    PresentAlike (P path collectors) (P' path collectors)

theorem Presentation.Agree.under {P P' : Presentation V} (h : P.Agree P') (σ : Side) :
    (P.under σ).Agree (P'.under σ) := fun path => h (σ :: path)

/-- Over equal facts a query yields equal rows. -/
theorem Query.Yields.agree [Std.TransOrd V] {domain : DomainModel V}
    {facts facts' : Multiset (Fact V)} {P P' : Presentation V} {q : Query V}
    {R R' : Multiset (Row V)} (h : q.Yields domain facts P R) (h' : q.Yields domain facts' P' R')
    (hq : q.Alike .results) (hfacts : Multiset.Rel SameFact facts facts') (hP : P.Agree P') :
    Multiset.Rel SameRow R R' := by
  induction h generalizing P' R' with
  | @source P type includeUnassigned c shown hc hshown =>
      cases h' with
      | source hc' hshown' =>
          rw [hc] at hc'
          cases hc'
          have hclass : Multiset.Rel SameFact (facts.filter (·.type = type))
              (facts'.filter (·.type = type)) :=
            Bag.rel_filter hfacts fun f g hfg => by rw [hfg.1]
          have hrel := hshown.agree hshown' hclass fun f g hfg => by
            have hadmits : c.admits includeUnassigned f = c.admits includeUnassigned g := by
              unfold FactClass.admits FactClass.isAssigned
              rw [hfg.1, hfg.2]
            rw [hadmits]
            exact ⟨fun a b ha hb => Except.ok.inj (ha.symm.trans hb), fun hk => by cases hk⟩
          exact Bag.rel_map_of hrel fun f g hfg => by
            rw [hfg.2]
            exact Cell.sameAll_refl _
  | filter _ hO ih =>
      cases h' with
      | filter hR' hO' => exact hO.agree hO' (ih hR' hq.2 (hP.under _)) hq.1
  | map _ hO ih =>
      cases h' with
      | map hR' hO' => exact hO.agree hO' (ih hR' hq.2 (hP.under _)) (columns_alike hq.1)
  | flattenLast _ hO ih =>
      cases h' with
      | flattenLast hR' hO' =>
          exact hO.agree hO' (ih hR' hq.2 (hP.under _)) (expansion_alike hq.1)
  | concat _ _ ihL ihR =>
      cases h' with
      | concat hL' hR' => exact (ihL hL' hq.1 (hP.under _)).add (ihR hR' hq.2 (hP.under _))
  | join _ _ hO ihL ihR =>
      cases h' with
      | join hL' hR' hO' =>
          exact hO.agree hO' hq.1 (ihL hL' hq.2.1 (hP.under _)) (ihR hR' hq.2.2 (hP.under _))
  | «exists» _ _ hO ihL ihR =>
      cases h' with
      | «exists» hL' hR' hO' =>
          exact hO.agree hO' hq.1 (ihL hL' hq.2.1 (hP.under _)) (ihR hR' hq.2.2 (hP.under _))
  | group _ hO ih =>
      cases h' with
      | group hR' hO' =>
          obtain ⟨members, hmembers, hgathered⟩ := hO
          obtain ⟨members', hmembers', hgathered'⟩ := hO'
          exact hgathered.agree hgathered' (hP [] _ hq.1.2)
            (hmembers.agree hmembers' (ih hR' hq.2 (hP.under _)) (membership_alike hq.1.1 hq.1.2))

end ConstraintScoring
