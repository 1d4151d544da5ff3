import ConstraintScoring.Node.Score
import ConstraintScoring.Proofs.Node.Hearing
import ConstraintScoring.Proofs.Outcome
import ConstraintScoring.Proofs.Score.Levels
import ConstraintScoring.Proofs.Table.Distinct
import Mathlib.Algebra.BigOperators.Group.Finset.Piecewise
import Mathlib.Tactic.Abel

/-!
# Scoring

A ledger balances if the total of each constraint is the sum of the impacts of its matches, and the
overall score the sum of all totals. Scoring an event keeps the ledger balanced.
-/

namespace ConstraintScoring

variable {V S : Type} [Score S]

namespace Ledger

/-- The total of some impacts, level by level. -/
def worth (bag : Multiset S) : Nat → Int := (bag.map Score.level).sum

theorem worth_cons (a : S) (bag : Multiset S) : worth (a ::ₘ bag) = Score.level a + worth bag := by
  rw [worth, Multiset.map_cons, Multiset.sum_cons]
  rfl

/-- The constraints with a total, by index. -/
def refs (l : Ledger S) : Array ConstraintRef := l.totals.map (·.ref)

omit [Score S] in
theorem size_of_refs {l l' : Ledger S} (h : l'.refs = l.refs) : l'.totals.size = l.totals.size := by
  simpa [refs] using congrArg Array.size h

/-- `bags` gives the impacts of the matches of each constraint. -/
structure Balances (l : Ledger S) (bags : Nat → Multiset S) : Prop where
  total : ∀ c total, l.totals[c]? = some total →
    Score.level total.score = worth (bags c) ∧ total.matchCount = (bags c).card
  score : Score.level l.score = ∑ c ∈ Finset.range l.totals.size, worth (bags c)

theorem balances_new [LawfulScore S] (refs : Array ConstraintRef) :
    (Ledger.new refs : Ledger S).Balances fun _ => 0 := by
  constructor
  · intro c total hc
    simp only [Ledger.new, Array.getElem?_map, Option.map_eq_some_iff] at hc
    obtain ⟨ref, -, rfl⟩ := hc
    exact ⟨Score.level_zero, rfl⟩
  · refine Score.level_zero.trans (Finset.sum_eq_zero fun c _ => ?_).symm
    rfl

variable {l l' : Ledger S} {bags bags' : Nat → Multiset S} {c : Nat} {a b : S}
  {step : S → Except Overflow S} {count : Nat → Nat}

omit [Score S] in
theorem change_refs (h : l.change c step count = .ok l') : l'.refs = l.refs := by
  unfold Ledger.change at h
  split at h
  · rw [Except.ok.inj h]
  · rename_i total htotal
    obtain ⟨score, -, h⟩ := Outcome.bind_eq_ok.mp h
    obtain ⟨overall, -, h⟩ := Outcome.bind_eq_ok.mp h
    rw [← Except.ok.inj h]
    refine Array.ext_getElem? fun i => ?_
    simp only [refs, Array.getElem?_map, Array.getElem?_setIfInBounds]
    by_cases hi : c = i
    · subst hi
      rw [if_pos rfl, htotal, if_pos (Array.getElem?_eq_some_iff.mp htotal).1]
      rfl
    · rw [if_neg hi]

/-- A step that adds `δ` to every score it is given keeps the ledger balanced if `δ` is what the
bag of the constraint gains. -/
theorem Balances.change {δ : Nat → Int} (h : l.Balances bags) (hc : c < l.totals.size)
    (hok : l.change c step count = .ok l')
    (hstep : ∀ x y, step x = .ok y → Score.level y = Score.level x + δ)
    (hworth : worth (bags' c) = worth (bags c) + δ) (hother : ∀ d, d ≠ c → bags' d = bags d)
    (hcount : count (bags c).card = (bags' c).card) : l'.Balances bags' := by
  have hsize := size_of_refs (change_refs hok)
  unfold Ledger.change at hok
  rw [Array.getElem?_eq_getElem hc] at hok
  obtain ⟨score, hscore, hok⟩ := Outcome.bind_eq_ok.mp hok
  obtain ⟨overall, hoverall, hok⟩ := Outcome.bind_eq_ok.mp hok
  obtain rfl := Except.ok.inj hok
  obtain ⟨htotal, hn⟩ := h.total c l.totals[c] (Array.getElem?_eq_getElem hc)
  constructor
  · intro d total hd
    by_cases hdc : d = c
    · subst hdc
      rw [Array.getElem?_setIfInBounds_self_of_lt hc] at hd
      obtain rfl := Option.some.inj hd
      exact ⟨by rw [hstep _ _ hscore, htotal, hworth], by rw [← hcount, ← hn]⟩
    · rw [Array.getElem?_setIfInBounds_ne (Ne.symm hdc)] at hd
      rw [hother d hdc]
      exact h.total d total hd
  · have hsum : ∀ d, worth (bags' d) = worth (bags d) + if d = c then δ else 0 := by
      intro d
      by_cases hdc : d = c
      · rw [if_pos hdc, hdc, hworth]
      · rw [if_neg hdc, hother d hdc, add_zero]
    rw [hsize, hstep _ _ hoverall, h.score, Finset.sum_congr rfl fun d _ => hsum d,
      Finset.sum_add_distrib, Finset.sum_ite_eq', if_pos (Finset.mem_range.mpr hc)]

variable [LawfulScore S]

theorem Balances.add (h : l.Balances bags) (hc : c < l.totals.size) (hok : l.add c a = .ok l')
    (hbag : bags' c = a ::ₘ bags c) (hother : ∀ d, d ≠ c → bags' d = bags d) :
    l'.Balances bags' := by
  refine h.change hc hok (δ := Score.level a) (fun x y hy => Score.level_add hy) ?_ hother ?_
  · rw [hbag, worth_cons, add_comm]
  · rw [hbag, Multiset.card_cons]

theorem Balances.remove (h : l.Balances bags) (hc : c < l.totals.size)
    (hok : l.remove c a = .ok l') (hbag : bags c = a ::ₘ bags' c)
    (hother : ∀ d, d ≠ c → bags' d = bags d) : l'.Balances bags' := by
  refine h.change hc hok (δ := -Score.level a)
    (fun x y hy => (Score.level_sub hy).trans (sub_eq_add_neg _ _)) ?_ hother ?_
  · rw [hbag, worth_cons, add_comm (Score.level a), add_neg_cancel_right]
  · rw [hbag, Multiset.card_cons]
    rfl

theorem Balances.replace (rest : Multiset S) (h : l.Balances bags) (hc : c < l.totals.size)
    (hok : l.replace c a b = .ok l') (hbag : bags c = a ::ₘ rest) (hbag' : bags' c = b ::ₘ rest)
    (hother : ∀ d, d ≠ c → bags' d = bags d) : l'.Balances bags' := by
  refine h.change hc hok (δ := Score.level b - Score.level a) (fun x y hy => ?_) ?_ hother ?_
  · obtain ⟨z, hz, hy⟩ := Outcome.bind_eq_ok.mp hy
    rw [Score.level_add hy, Score.level_sub hz]
    abel
  · rw [hbag, hbag', worth_cons, worth_cons]
    abel
  · rw [hbag, hbag', Multiset.card_cons, Multiset.card_cons]
    rfl

end Ledger

namespace ScoreNode

structure Books (n : ScoreNode V S) (h : Hearing) (ρ : TupleId → Row V) : Prop where
  distinct : n.impacts.Distinct
  known_iff : ∀ t, (∃ impact, n.impacts.get? t = some impact) ↔ h.known .left t
  fresh : ∀ t, h.fresh .left t →
    ∃ impact, n.impacts.get? t = some impact ∧ n.impactOf (ρ t) = .ok impact

/-- Scoring is stopped by the weight of a match or by a score that leaves its range. -/
def Raises (n : ScoreNode V S) (f : Fault) : Prop :=
  (∃ row, n.impactOf row = .error f) ∨ ∃ step, f = .overflow step

/-- What stops scoring when it hears of an event of a tuple with the row. -/
def Trips (n : ScoreNode V S) (e : Event) (row : Row V) (f : Fault) : Prop :=
  (∃ step, f = .overflow step) ∨ e ≠ .retract ∧ n.impactOf row = .error f

/-- A node that differs in its impacts only. -/
structure Alike (n n' : ScoreNode V S) : Prop where
  constraint : n'.constraint = n.constraint
  impact : n'.impact = n.impact
  weight : n'.weight = n.weight
  weigher : n'.weigher = n.weigher

def bag (n : ScoreNode V S) : Multiset S := n.impacts.values

variable {n n' : ScoreNode V S} {h h' : Hearing} {ρ ρ' : TupleId → Row V} {t : TupleId}
  {l l' : Ledger S} {e : Event} {f : Fault} {a : S}

/-- An input whose row changes is no longer fresh. -/
theorem Books.frame (hb : n.Books h ρ) (hknown : ∀ t, h.known .left t ↔ h'.known .left t)
    (hfresh : ∀ t, h'.fresh .left t → h.fresh .left t ∧ ρ' t = ρ t) : n.Books h' ρ' := by
  refine ⟨hb.distinct, fun t => (hb.known_iff t).trans (hknown t), fun t ht => ?_⟩
  obtain ⟨ht, hrow⟩ := hfresh t ht
  rw [hrow]
  exact hb.fresh t ht

theorem record_books (hb : n.Books h ρ) (ha : n.impactOf (ρ t) = .ok a) :
    (n.record t a).Books (h.hear .left .insert t) ρ := by
  have hget : ∀ x, (n.record t a).impacts.get? x = if t = x then some a else n.impacts.get? x :=
    fun x => by
      refine (Table.get?_insert n.impacts t x a).trans ?_
      simp
  refine ⟨hb.distinct.insert t a, fun x => ?_, fun x hx => ?_⟩
  · rw [hget]
    by_cases htx : t = x
    · subst htx
      simp [Hearing.hear]
    · rw [if_neg htx, hb.known_iff]
      simp [Hearing.hear, Ne.symm htx]
  · rw [hget]
    by_cases htx : t = x
    · subst htx
      exact ⟨a, if_pos rfl, ha⟩
    · have hx := hx.resolve_left fun hx => htx hx.2.symm
      rw [if_neg htx]
      exact hb.fresh x hx

theorem forget_books (hb : n.Books h ρ) :
    { n with impacts := n.impacts.erase t }.Books (h.hear .left .retract t) ρ := by
  have hget : ∀ x, (n.impacts.erase t).get? x = if t = x then none else n.impacts.get? x :=
    fun x => by
      rw [hb.distinct.get?_erase]
      simp
  refine ⟨hb.distinct.erase t, fun x => ?_, fun x hx => ?_⟩
  · change (∃ impact, (n.impacts.erase t).get? x = some impact) ↔ _
    rw [hget]
    by_cases htx : t = x
    · subst htx
      simp [Hearing.hear]
    · rw [if_neg htx, hb.known_iff]
      simp [Hearing.hear, Ne.symm htx]
  · change ∃ impact, (n.impacts.erase t).get? x = some impact ∧ _
    rw [hget, if_neg fun htx => hx.2 ⟨rfl, htx.symm⟩]
    exact hb.fresh x hx.1

theorem asFault_eq_ok {α : Type} {x : Except Overflow α} {a : α} :
    asFault x = .ok a ↔ x = .ok a := by
  cases x with
  | ok b => exact ⟨fun h => congrArg _ (Except.ok.inj h), fun h => congrArg _ (Except.ok.inj h)⟩
  | error step =>
      constructor
      · intro h
        cases h
      · intro h
        cases h

theorem asFault_eq_error {α : Type} {x : Except Overflow α} (h : asFault x = .error f) :
    ∃ step, f = .overflow step := by
  cases x with
  | ok b => cases h
  | error step => exact ⟨step, (Except.error.inj h).symm⟩

theorem Trips.raises {row : Row V} (h : n.Trips e row f) : n.Raises f :=
  h.symm.imp (fun h => ⟨row, h.2⟩) id

theorem onEvent_error (hf : n.onEvent e t (ρ t) l = .error f) : n.Trips e (ρ t) f := by
  have hscored : ∀ {β : Type} {g : S → Except Fault β}, e ≠ .retract →
      (n.impactOf (ρ t) >>= g) = .error f →
      (∀ a, g a = .error f → n.Trips e (ρ t) f) → n.Trips e (ρ t) f := by
    intro β g he hg hrest
    rcases Outcome.bind_eq_error.mp hg with hg | ⟨a, -, hg⟩
    · exact Or.inr ⟨he, hg⟩
    · exact hrest a hg
  have hledger : ∀ {x : Except Overflow (Ledger S)} {n' : ScoreNode V S},
      (asFault x >>= fun l => pure (n', l) : Except Fault _) = .error f → n.Trips e (ρ t) f := by
    intro x n' hx
    rcases Outcome.bind_eq_error.mp hx with hx | ⟨l, -, hx⟩
    · exact Or.inl (asFault_eq_error hx)
    · cases hx
  cases e with
  | insert => exact hscored nofun hf fun a hf => hledger hf
  | update =>
      refine hscored nofun hf fun a hf => ?_
      split at hf <;> exact hledger hf
  | retract =>
      unfold onEvent at hf
      simp only at hf
      split at hf
      · exact hledger hf
      · cases hf

variable [LawfulScore S]

/-- What scoring an event leads to. -/
structure Heard (n : ScoreNode V S) (l : Ledger S) (h : Hearing) (ρ : TupleId → Row V)
    (n' : ScoreNode V S) (l' : Ledger S) : Prop where
  books : n'.Books h ρ
  alike : Alike n n'
  refs : l'.refs = l.refs
  balances : ∀ (bags bags' : Nat → Multiset S) (rest : Multiset S), l.Balances bags →
    bags n.constraint = n.bag + rest → bags' n.constraint = n'.bag + rest →
    (∀ d, d ≠ n.constraint → bags' d = bags d) → l'.Balances bags'

omit [Score S] [LawfulScore S] in
theorem bag_record_of_none (hk : n.impacts.get? t = none) : (n.record t a).bag = a ::ₘ n.bag := by
  unfold bag
  rw [Multiset.cons_coe]
  refine Multiset.coe_eq_coe.mpr ?_
  change (n.impacts.insert t a).values.Perm _
  rw [Table.values_insert_of_none a hk]
  exact List.perm_append_singleton a _

theorem add_heard (hb : n.Books h ρ) (hc : n.constraint < l.totals.size)
    (ha : n.impactOf (ρ t) = .ok a) (hk : n.impacts.get? t = none)
    (hl : l.add n.constraint a = .ok l') :
    n.Heard l (h.hear .left .insert t) ρ (n.record t a) l' := by
  refine ⟨record_books hb ha, ⟨rfl, rfl, rfl, rfl⟩, Ledger.change_refs hl, ?_⟩
  intro bags bags' rest hbags hbag hbag' hother
  refine hbags.add hc hl ?_ hother
  rw [hbag, hbag', bag_record_of_none hk, Multiset.cons_add]

theorem onEvent_heard (hb : n.Books h ρ) (he : h.Expects .left e t)
    (hc : n.constraint < l.totals.size) (hok : n.onEvent e t (ρ t) l = .ok (n', l')) :
    n.Heard l (h.hear .left e t) ρ n' l' := by
  cases e with
  | insert =>
      obtain ⟨a, ha, hok⟩ := Outcome.bind_eq_ok.mp hok
      obtain ⟨l₁, hl, hok⟩ := Outcome.bind_eq_ok.mp hok
      obtain ⟨rfl, rfl⟩ := Prod.mk.inj (Except.ok.inj hok)
      refine add_heard hb hc ha ?_ (asFault_eq_ok.mp hl)
      by_contra hne
      exact he ((hb.known_iff t).mp (Option.ne_none_iff_exists'.mp hne))
  | update =>
      obtain ⟨a, ha, hok⟩ := Outcome.bind_eq_ok.mp hok
      cases hk : n.impacts.get? t with
      | none =>
          simp only [hk] at hok
          obtain ⟨l₁, hl, hok⟩ := Outcome.bind_eq_ok.mp hok
          obtain ⟨rfl, rfl⟩ := Prod.mk.inj (Except.ok.inj hok)
          exact add_heard hb hc ha hk (asFault_eq_ok.mp hl)
      | some old =>
          simp only [hk] at hok
          obtain ⟨l₁, hl, hok⟩ := Outcome.bind_eq_ok.mp hok
          obtain ⟨rfl, rfl⟩ := Prod.mk.inj (Except.ok.inj hok)
          have hl := asFault_eq_ok.mp hl
          obtain ⟨rest, hbefore, hafter⟩ := Table.values_insert_of_some a hk
          have hbag₁ : n.bag = old ::ₘ rest := by
            rw [Multiset.cons_coe]
            exact Multiset.coe_eq_coe.mpr hbefore
          have hbag₂ : (n.record t a).bag = a ::ₘ rest := by
            rw [Multiset.cons_coe]
            exact Multiset.coe_eq_coe.mpr hafter
          refine ⟨record_books hb ha, ⟨rfl, rfl, rfl, rfl⟩, Ledger.change_refs hl, ?_⟩
          intro bags bags' others hbags hbag hbag' hother
          refine hbags.replace (rest + others) hc hl ?_ ?_ hother
          · rw [hbag, hbag₁, Multiset.cons_add]
          · rw [hbag', hbag₂, Multiset.cons_add]
  | retract =>
      unfold onEvent at hok
      simp only at hok
      obtain ⟨old, hk⟩ := (hb.known_iff t).mpr he
      simp only [hk] at hok
      obtain ⟨l₁, hl, hok⟩ := Outcome.bind_eq_ok.mp hok
      obtain ⟨rfl, rfl⟩ := Prod.mk.inj (Except.ok.inj hok)
      have hl := asFault_eq_ok.mp hl
      have hbag₁ : n.bag = old ::ₘ { n with impacts := n.impacts.erase t }.bag := by
        rw [bag, bag, Multiset.cons_coe]
        exact Multiset.coe_eq_coe.mpr (Table.values_erase_of_some hk)
      refine ⟨forget_books hb, ⟨rfl, rfl, rfl, rfl⟩, Ledger.change_refs hl, ?_⟩
      intro bags bags' rest hbags hbag hbag' hother
      refine hbags.remove hc hl ?_ hother
      rw [hbag, hbag₁, hbag', Multiset.cons_add]

end ScoreNode

end ConstraintScoring
