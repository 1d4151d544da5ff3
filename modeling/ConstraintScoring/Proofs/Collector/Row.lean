import ConstraintScoring.Node.Group
import ConstraintScoring.Proofs.Collector.Accumulator

/-!
# Several collectors side by side

The collectors of a grouping take one contribution each from a row. What is said of one accumulator
and its contributions carries over to a list of accumulators and lists of contributions.
-/

namespace ConstraintScoring

variable {V : Type} [Cell V]

/-- What the first collector was given. -/
def firsts (bag : Multiset (List (Contribution V))) : Multiset (Contribution V) :=
  bag.filterMap List.head?

/-- What the other collectors were given. -/
def rests (bag : Multiset (List (Contribution V))) : Multiset (List (Contribution V)) :=
  bag.map List.tail

section

omit [Cell V]

variable {c : Contribution V} {cs : List (Contribution V)} {bag : Multiset (List (Contribution V))}

theorem firsts_cons : firsts ((c :: cs) ::ₘ bag) = c ::ₘ firsts bag :=
  Multiset.filterMap_cons_some _ _ _ rfl

theorem rests_cons : rests ((c :: cs) ::ₘ bag) = cs ::ₘ rests bag := Multiset.map_cons ..

end

def AllReflect [Std.TransOrd V] : List (Accumulator V) → List CollectorKind →
    Multiset (List (Contribution V)) → Prop
  | [], [], _ => True
  | a :: as, k :: ks, bag =>
      a.kind = k ∧ a.Reflects (firsts bag) ∧ AllReflect as ks (rests bag)
  | _, _, _ => False

/-- Something holds of each accumulator and of what it was given. -/
def AllHold (P : Accumulator V → Multiset (Contribution V) → Prop) :
    List (Accumulator V) → Multiset (List (Contribution V)) → Prop
  | [], _ => True
  | a :: as, bag => P a (firsts bag) ∧ AllHold P as (rests bag)

/-- The cells that collectors present of lists of contributions. -/
def AllShow [Std.TransOrd V] : List (Collector V) → Multiset (List (Contribution V)) →
    List V → Prop
  | [], _, [] => True
  | c :: cs, bag, v :: vs =>
      (∃ x, Shows c.kind (firsts bag) x ∧ v = c.present x) ∧ AllShow cs (rests bag) vs
  | _, _, _ => False

/-- A collector that sums decimals is given decimals without places. -/
def Collector.GivesWhole (c : Collector V) : Prop :=
  c.kind.SumsDecimals → ∀ row d, c.contribution.run row = .ok (.decimal d) → d.scale = 0

def AllFit (cs : List (Contribution V)) (ks : List CollectorKind) : Prop :=
  List.Forall₂ (fun c k => c.Fits k) cs ks

section Steps

variable [Std.TransOrd V] {ks : List CollectorKind} {as as' : List (Accumulator V)}
  {cs : List (Contribution V)} {bag : Multiset (List (Contribution V))} {f : Fault}

theorem allReflect_new (ks : List CollectorKind) :
    AllReflect (ks.map (.new : CollectorKind → Accumulator V)) ks 0 := by
  induction ks with
  | nil => trivial
  | cons k ks ih => exact ⟨Accumulator.kind_new k, Accumulator.reflects_new k, ih⟩

theorem AllReflect.map_kind (h : AllReflect as ks bag) : as.map (·.kind) = ks := by
  induction as generalizing ks bag with
  | nil => cases ks with
    | nil => rfl
    | cons k ks => exact False.elim h
  | cons a as ih => cases ks with
    | nil => exact False.elim h
    | cons k ks =>
        obtain ⟨rfl, -, h⟩ := h
        rw [List.map_cons, ih h]

theorem AllReflect.length (h : AllReflect as ks bag) : as.length = ks.length := by
  rw [← h.map_kind, List.length_map]

/-- The accumulators forgotten are new ones of the same kinds. -/
theorem AllReflect.reset (h : AllReflect as ks bag) :
    as.map (·.reset) = ks.map (.new : CollectorKind → Accumulator V) := by
  rw [← h.map_kind, List.map_map]
  exact List.map_congr_left fun a _ => Accumulator.reset_eq_new a

omit [Cell V] [Std.TransOrd V] in
theorem AllHold.mono {P Q : Accumulator V → Multiset (Contribution V) → Prop}
    (h : AllHold P as bag) (hPQ : ∀ a s, P a s → Q a s) : AllHold Q as bag := by
  induction as generalizing bag with
  | nil => trivial
  | cons a as ih => exact ⟨hPQ a _ h.1, ih h.2⟩

omit [Cell V] [Std.TransOrd V] in
theorem AllHold.of_mem {P : Accumulator V → Multiset (Contribution V) → Prop} {a : Accumulator V}
    (h : AllHold P as bag) (ha : a ∈ as) : ∃ s, P a s := by
  induction as generalizing bag with
  | nil => cases ha
  | cons b as ih =>
      rcases List.mem_cons.mp ha with rfl | ha
      · exact ⟨_, h.1⟩
      · exact ih h.2 ha

omit [Cell V] [Std.TransOrd V] in
theorem allHold_of_forall {P : Accumulator V → Multiset (Contribution V) → Prop}
    (h : ∀ a ∈ as, ∀ s, P a s) (bag : Multiset (List (Contribution V))) : AllHold P as bag := by
  induction as generalizing bag with
  | nil => trivial
  | cons a as ih =>
      obtain ⟨ha, has⟩ := List.forall_mem_cons.mp h
      exact ⟨ha _, ih has _⟩

theorem accumulateAll_reflects (h : AllReflect as ks bag) (hlen : cs.length = ks.length)
    (hok : GroupNode.accumulateAll as cs = .ok as') :
    AllReflect as' ks (cs ::ₘ bag) ∧ AllFit cs ks := by
  induction as generalizing ks cs bag as' with
  | nil =>
      cases ks with
      | nil =>
          obtain rfl := List.length_eq_zero_iff.mp hlen
          obtain rfl := Except.ok.inj hok
          exact ⟨trivial, .nil⟩
      | cons k ks => exact False.elim h
  | cons a as ih =>
      cases ks with
      | nil => exact False.elim h
      | cons k ks =>
          cases cs with
          | nil => cases hlen
          | cons c cs =>
              obtain ⟨rfl, ha, has⟩ := h
              obtain ⟨a', ha', hok⟩ := Outcome.bind_eq_ok.mp hok
              obtain ⟨as'', has'', hok⟩ := Outcome.bind_eq_ok.mp hok
              obtain rfl := Except.ok.inj hok
              obtain ⟨hkind, hreflects⟩ := Accumulator.accumulate_reflects ha'
              obtain ⟨hall, hfit⟩ := ih has (Nat.succ.inj hlen) has''
              refine ⟨⟨hkind, ?_, ?_⟩, .cons (Accumulator.accumulate_fits ha') hfit⟩
              · rw [firsts_cons]
                exact hreflects _ ha
              · rwa [rests_cons]

theorem retractAll_reflects (h : AllReflect as ks (cs ::ₘ bag)) (hlen : cs.length = ks.length)
    (hok : GroupNode.retractAll as cs = .ok as') : AllReflect as' ks bag := by
  induction as generalizing ks cs bag as' with
  | nil =>
      cases ks with
      | nil =>
          obtain rfl := List.length_eq_zero_iff.mp hlen
          obtain rfl := Except.ok.inj hok
          trivial
      | cons k ks => exact False.elim h
  | cons a as ih =>
      cases ks with
      | nil => exact False.elim h
      | cons k ks =>
          cases cs with
          | nil => cases hlen
          | cons c cs =>
              obtain ⟨rfl, ha, has⟩ := h
              rw [firsts_cons] at ha
              rw [rests_cons] at has
              obtain ⟨a', ha', hok⟩ := Outcome.bind_eq_ok.mp hok
              obtain ⟨as'', has'', hok⟩ := Outcome.bind_eq_ok.mp hok
              obtain rfl := Except.ok.inj hok
              obtain ⟨hkind, hreflects⟩ := Accumulator.retract_reflects ha'
              exact ⟨hkind, hreflects _ ha, ih has (Nat.succ.inj hlen) has''⟩

omit [Std.TransOrd V] in
/-- Sums without decimal places have none after one more row of contributions without. -/
theorem accumulateAll_wholeSums (h : AllHold Accumulator.WholeSum as bag)
    (hlen : cs.length = as.length) (hcs : ∀ c ∈ cs, c.Whole)
    (hok : GroupNode.accumulateAll as cs = .ok as') :
    AllHold Accumulator.WholeSum as' (cs ::ₘ bag) := by
  induction as generalizing cs bag as' with
  | nil =>
      obtain rfl := List.length_eq_zero_iff.mp hlen
      obtain rfl := Except.ok.inj hok
      trivial
  | cons a as ih =>
      cases cs with
      | nil => cases hlen
      | cons c cs =>
          obtain ⟨hc, hcs⟩ := List.forall_mem_cons.mp hcs
          obtain ⟨a', ha', hok⟩ := Outcome.bind_eq_ok.mp hok
          obtain ⟨as'', has'', hok⟩ := Outcome.bind_eq_ok.mp hok
          obtain rfl := Except.ok.inj hok
          unfold AllHold
          rw [firsts_cons, rests_cons]
          exact ⟨Accumulator.accumulate_wholeSum hc ha' h.1,
            ih h.2 (Nat.succ.inj hlen) hcs has''⟩

omit [Std.TransOrd V] in
theorem retractAll_wholeSums (h : AllHold Accumulator.WholeSum as (cs ::ₘ bag))
    (hlen : cs.length = as.length) (hcs : ∀ c ∈ cs, c.Whole)
    (hok : GroupNode.retractAll as cs = .ok as') : AllHold Accumulator.WholeSum as' bag := by
  induction as generalizing cs bag as' with
  | nil =>
      obtain rfl := List.length_eq_zero_iff.mp hlen
      obtain rfl := Except.ok.inj hok
      trivial
  | cons a as ih =>
      cases cs with
      | nil => cases hlen
      | cons c cs =>
          obtain ⟨hc, hcs⟩ := List.forall_mem_cons.mp hcs
          obtain ⟨a', ha', hok⟩ := Outcome.bind_eq_ok.mp hok
          obtain ⟨as'', has'', hok⟩ := Outcome.bind_eq_ok.mp hok
          obtain rfl := Except.ok.inj hok
          unfold AllHold at h
          rw [firsts_cons, rests_cons] at h
          exact ⟨Accumulator.retract_wholeSum hc ha' h.1,
            ih h.2 (Nat.succ.inj hlen) hcs has''⟩

omit [Cell V] [Std.TransOrd V] in
theorem allHold_new (ks : List CollectorKind) :
    AllHold Accumulator.WholeSum (ks.map (.new : CollectorKind → Accumulator V)) 0 := by
  induction ks with
  | nil => trivial
  | cons k ks ih => exact ⟨Accumulator.wholeSum_new k, ih⟩

theorem accumulateAll_fault (h : AllReflect as ks bag) (hfit : AllFit cs ks)
    (herror : GroupNode.accumulateAll as cs = .error f) : SumFault f := by
  induction as generalizing ks cs bag with
  | nil => cases herror
  | cons a as ih =>
      cases hfit with
      | nil => exact False.elim h
      | cons hc hcs =>
          obtain ⟨rfl, -, has⟩ := h
          rcases Outcome.bind_eq_error.mp herror with herror | ⟨a', -, herror⟩
          · exact Accumulator.accumulate_fault herror hc
          · rcases Outcome.bind_eq_error.mp herror with herror | ⟨as', -, herror⟩
            · exact ih has hcs herror
            · cases herror

theorem retractAll_fault (h : AllReflect as ks bag) (hfit : AllFit cs ks)
    (herror : GroupNode.retractAll as cs = .error f) : SumFault f := by
  induction as generalizing ks cs bag with
  | nil => cases herror
  | cons a as ih =>
      cases hfit with
      | nil => exact False.elim h
      | cons hc hcs =>
          obtain ⟨rfl, -, has⟩ := h
          rcases Outcome.bind_eq_error.mp herror with herror | ⟨a', -, herror⟩
          · exact Accumulator.retract_fault herror hc
          · rcases Outcome.bind_eq_error.mp herror with herror | ⟨as', -, herror⟩
            · exact ih has hcs herror
            · cases herror

/-- Where no contribution has decimal places, sums are exact and means those of new accumulators. -/
theorem AllReflect.steady (h : AllReflect as ks bag) (hwhole : AllHold Accumulator.WholeSum as bag)
    (hbag : ∀ cs ∈ bag, ∀ c ∈ cs, c.Whole) :
    AllHold (fun a s => a.Exact s ∧ a.Steady s) as bag := by
  induction as generalizing ks bag with
  | nil => trivial
  | cons a as ih =>
      cases ks with
      | nil => exact False.elim h
      | cons k ks =>
          refine ⟨⟨hwhole.1.exact, hwhole.1.steady fun c hc => ?_⟩,
            ih h.2.2 hwhole.2 fun cs hcs c hc => ?_⟩
          · obtain ⟨cs, hcs, hhead⟩ := (Multiset.mem_filterMap _ _).mp hc
            exact hbag cs hcs c (List.mem_of_mem_head? hhead)
          · obtain ⟨cs', hcs', rfl⟩ := Multiset.mem_map.mp hcs
            exact hbag cs' hcs' c (List.mem_of_mem_tail hc)

/-- What the collectors present of accumulators with exact sums and steady means. -/
theorem AllReflect.show {collectors : List (Collector V)}
    (h : AllReflect as (collectors.map (·.kind)) bag)
    (hsteady : AllHold (fun a s => a.Exact s ∧ a.Steady s) as bag) :
    AllShow collectors bag (List.zipWith (fun c a => c.present a.finish) collectors as) := by
  induction as generalizing collectors bag with
  | nil =>
      cases collectors with
      | nil => trivial
      | cons c cs => exact False.elim h
  | cons a as ih =>
      cases collectors with
      | nil => exact False.elim h
      | cons c cs =>
          obtain ⟨hkind, ha, has⟩ := h
          have hkind : a.kind = c.kind := hkind
          refine ⟨⟨a.finish, ?_, rfl⟩, ih has hsteady.2⟩
          rw [← hkind]
          exact Accumulator.finish_shows ha hsteady.1.1 hsteady.1.2

theorem Contribution.same_refl (c : Contribution V) : c.Same c := by
  cases c with
  | value v => exact Cell.same_refl v
  | _ => first | rfl | trivial

omit [Std.TransOrd V] in
theorem firsts_rel {bag bag' : Multiset (List (Contribution V))}
    (h : Multiset.Rel (List.Forall₂ Contribution.Same) bag bag') :
    Multiset.Rel Contribution.Same (firsts bag) (firsts bag') :=
  Bag.rel_filterMap h fun as bs hab => by
    cases hab with
    | nil => exact .none
    | cons hab _ => exact .some hab

omit [Std.TransOrd V] in
theorem rests_rel {bag bag' : Multiset (List (Contribution V))}
    (h : Multiset.Rel (List.Forall₂ Contribution.Same) bag bag') :
    Multiset.Rel (List.Forall₂ Contribution.Same) (rests bag) (rests bag') :=
  Bag.rel_map_of h fun as bs hab => by
    cases hab with
    | nil => exact .nil
    | cons _ hab => exact hab

section Alike

variable {bs : List (Accumulator V)} {bag' : Multiset (List (Contribution V))}

/-- What holds of two accumulators that reflect equal contributions holds of two lists of them. -/
theorem AllReflect.forall₂ {P Q : Accumulator V → Multiset (Contribution V) → Prop}
    {R : Accumulator V → Accumulator V → Prop} (ha : AllReflect as ks bag)
    (hb : AllReflect bs ks bag') (hP : AllHold P as bag) (hQ : AllHold Q bs bag')
    (h : Multiset.Rel (List.Forall₂ Contribution.Same) bag bag')
    (hR : ∀ a b s s', b.kind = a.kind → a.Reflects s → b.Reflects s' → P a s → Q b s' →
      Multiset.Rel Contribution.Same s s' → R a b) : List.Forall₂ R as bs := by
  induction as generalizing ks bs bag bag' with
  | nil =>
      cases ks with
      | nil =>
          cases bs with
          | nil => exact .nil
          | cons b bs => exact False.elim hb
      | cons k ks => exact False.elim ha
  | cons a as ih =>
      cases ks with
      | nil => exact False.elim ha
      | cons k ks =>
          cases bs with
          | nil => exact False.elim hb
          | cons b bs =>
              obtain ⟨rfl, ha, has⟩ := ha
              obtain ⟨hkind, hb, hbs⟩ := hb
              exact .cons (hR a b _ _ hkind ha hb hP.1 hQ.1 (firsts_rel h))
                (ih has hbs hP.2 hQ.2 (rests_rel h))

/-- Accumulators that reflect equal contributions show equal things, sums of decimals apart. -/
theorem AllReflect.alike (ha : AllReflect as ks bag) (hb : AllReflect bs ks bag')
    (h : Multiset.Rel (List.Forall₂ Contribution.Same) bag bag') :
    List.Forall₂ (fun a b => ¬a.kind.SumsDecimals → a.finish.Same b.finish) as bs := by
  have htrivial : ∀ cs : List (Accumulator V), ∀ s, AllHold (fun _ _ => True) cs s := fun cs =>
    allHold_of_forall fun _ _ _ => trivial
  refine ha.forall₂ hb (htrivial as bag) (htrivial bs bag') h
    fun a b s s' hkind ha hb _ _ hsame hk => ?_
  exact Accumulator.finish_same hkind ha hb (Accumulator.exact_of_not_sums hk s)
    (Accumulator.exact_of_not_sums (hkind.symm ▸ hk) s')
    (Accumulator.meansAgree_of_ne (mt Or.inr hk)) hsame

/-- Accumulators with exact sums that reflect equal contributions show equal things if their means
agree. -/
theorem AllReflect.same (ha : AllReflect as ks bag) (hb : AllReflect bs ks bag')
    (hexact : AllHold Accumulator.Exact as bag) (hexact' : AllHold Accumulator.Exact bs bag')
    (hmeans : ∀ p ∈ as.zip bs, p.1.MeansAgree p.2)
    (h : Multiset.Rel (List.Forall₂ Contribution.Same) bag bag') :
    List.Forall₂ (fun a b => a.finish.Same b.finish) as bs := by
  have hsame : List.Forall₂ (fun a b => a.MeansAgree b → a.finish.Same b.finish) as bs :=
    ha.forall₂ hb hexact hexact' h fun a b s s' hkind ha hb he he' hs hm =>
      Accumulator.finish_same hkind ha hb he he' hm hs
  obtain ⟨hlen, hsame⟩ := List.forall₂_iff_zip.mp hsame
  exact List.forall₂_iff_zip.mpr ⟨hlen, fun {a b} hab => hsame hab (hmeans (a, b) hab)⟩

omit [Std.TransOrd V] in
/-- Collectors that present equal things alike present accumulators that show equal things alike. -/
theorem presented_same {collectors : List (Collector V)}
    (h : List.Forall₂ (fun a b : Accumulator V => a.finish.Same b.finish) as bs)
    (hpresent : ∀ c ∈ collectors, ∀ x y : Collected V, x.Same y →
      Cell.same (c.present x) (c.present y) = true) :
    Cell.sameAll (List.zipWith (fun c a => c.present a.finish) collectors as)
      (List.zipWith (fun c a => c.present a.finish) collectors bs) = true := by
  induction h generalizing collectors with
  | nil => cases collectors <;> rfl
  | cons hab _ ih =>
      cases collectors with
      | nil => rfl
      | cons c cs =>
          obtain ⟨hc, hcs⟩ := List.forall_mem_cons.mp hpresent
          simp only [List.zipWith_cons_cons, Cell.sameAll, Bool.and_eq_true]
          exact ⟨hc _ _ hab, ih hcs⟩

end Alike

end Steps

end ConstraintScoring
