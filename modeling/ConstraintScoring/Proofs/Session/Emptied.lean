import ConstraintScoring.Proofs.Network.Cleared
import ConstraintScoring.Proofs.Session.Requests

/-!
# Sessions that are emptied

When every fact that a session was built with or that was inserted has been retracted, settling
leaves nothing behind: no score, no matches, no tuples, and no entries in the tables of the nodes.
-/

namespace ConstraintScoring

namespace Coin

/-- The coins are changed, and then all of them are taken back. -/
def emptying : List (Session.Call Coin) :=
  calls ++ [.retract (coin 3 5), .calculateScore, .retract (coin 1 5), .retract (coin 4 7),
    .retract (coin 2 5)]

def emptied : Session Coin SimpleScore := .called factory network purse emptying

theorem emptied_ran : Session.Ran factory purse emptying emptied ∧
    ∃ n net, Network.settle.run.run emptied.network = (.ok n, net) :=
  Session.called_ran network_compiled (by decide +kernel)

end Coin

namespace Session

variable {V : Type} [Cell V]

/-- Whether the call takes back the fact under the key. -/
def Call.retracts (k : FactKey V) : Call V → Bool
  | retract x => x.key == k
  | _ => false

/-- Whether every fact that is inserted is retracted by a later call. -/
def takesBack : List (Call V) → Bool
  | [] => true
  | c :: calls =>
      (match c with
        | .insert x => calls.any (·.retracts x.key)
        | _ => true) && takesBack calls

/-- A fact under the key is inserted and not retracted later on. -/
def LeavesOver (k : FactKey V) (calls : List (Call V)) : Prop :=
  ∃ earlier x later, calls = earlier ++ .insert x :: later ∧ x.key == k ∧
    ∀ c ∈ later, c.retracts k = false

variable {k : FactKey V} {calls : List (Call V)} {c : Call V} {x : Fact V}

theorem LeavesOver.insert (calls : List (Call V)) (hx : x.key == k) :
    LeavesOver k (calls ++ [.insert x]) :=
  ⟨calls, x, [], rfl, hx, fun c hc => by cases hc⟩

theorem LeavesOver.append (h : LeavesOver k calls) (hc : c.retracts k = false) :
    LeavesOver k (calls ++ [c]) := by
  obtain ⟨earlier, x, later, rfl, hx, hlater⟩ := h
  refine ⟨earlier, x, later ++ [c], by simp, hx, fun d hd => ?_⟩
  rcases List.mem_append.mp hd with hd | hd
  · exact hlater d hd
  · exact List.mem_singleton.mp hd ▸ hc

theorem takesBack_later {earlier later : List (Call V)}
    (h : takesBack (earlier ++ .insert x :: later)) : ∃ c ∈ later, c.retracts x.key := by
  induction earlier with
  | nil => exact List.any_eq_true.mp (Bool.and_eq_true_iff.mp h).1
  | cons d earlier ih => exact ih (Bool.and_eq_true_iff.mp h).2

variable [Std.TransOrd V]

theorem Call.retracts_congr {k' : FactKey V} (hk : k == k') :
    c.retracts k = c.retracts k' := by
  cases c with
  | retract x => exact BEq.congr_right hk
  | _ => rfl

theorem not_leavesOver (h : takesBack calls) : ¬LeavesOver k calls := by
  rintro ⟨earlier, x, later, rfl, hx, hlater⟩
  obtain ⟨c, hc, hretracts⟩ := takesBack_later h
  rw [Call.retracts_congr hx, hlater c hc] at hretracts
  cases hretracts

/-- Only facts that were added are in a table. -/
theorem leavesOver_addAll {facts : Table (FactKey V) V} {fs : List (Fact V)}
    (hk : ∃ cell, (addAll facts fs).get? k = some cell) (hfacts : facts.get? k = none) :
    LeavesOver k (fs.map .insert) := by
  induction fs using List.reverseRecOn with
  | nil =>
      obtain ⟨cell, hcell⟩ := hk
      rw [show addAll facts [] = facts from rfl, hfacts] at hcell
      cases hcell
  | append_singleton fs x ih =>
      have hadd : addAll facts (fs ++ [x]) = (addAll facts fs).insert x.key x.cell :=
        List.foldl_concat _ _ _ _
      rw [hadd, Table.get?_insert] at hk
      rw [List.map_append]
      cases hx : x.key == k with
      | true => exact LeavesOver.insert _ hx
      | false =>
          rw [if_neg (by simp [hx])] at hk
          exact (ih hk).append rfl

variable {S : Type} [Score S] [LawfulScore S] {f : SessionFactory V S} {facts : List (Fact V)}
  {s s' : Session V S} {net : Network V S} {n : Nat}

theorem Reached.facts_distinct (h : Reached f s) (hf : Formed f.graph.declarations)
    (hs : s.poisoned = false) : s.facts.Distinct := by
  obtain ⟨net₀, hcompiled, -, -, m, hm⟩ := h.live hf hs
  have hspec := Network.compile_spec hcompiled
  rw [← hm.facts]
  exact (hm.reachable.sound (hspec.wired hf) hspec.unused).facts_distinct

/-- A fact that is still there was inserted and not retracted since. -/
theorem Ran.leavesOver (h : Ran f facts calls s) (hf : Formed f.graph.declarations)
    (hk : ∃ cell, s.facts.get? k = some cell) : LeavesOver k (facts.map .insert ++ calls) := by
  induction h with
  | built hbuilt =>
      rw [(built_live hbuilt).2.1] at hk
      rw [List.append_nil]
      exact leavesOver_addAll hk rfl
  | call hran hrun ih =>
      rename_i calls c s s'
      obtain ⟨hreached, husable, hfacts⟩ := hran.facts_eq hf
      have hnote : s'.facts = c.note s.facts := by
        rw [((hran.call hrun).facts_eq hf).2.2, hfacts, List.foldl_append]
        rfl
      rw [hnote] at hk
      rw [← List.append_assoc]
      cases c with
      | insert x =>
          unfold Call.note FactChange.after at hk
          rw [Table.get?_insert] at hk
          cases hx : x.key == k with
          | true => exact LeavesOver.insert _ hx
          | false =>
              rw [if_neg (by simp [hx])] at hk
              exact (ih hk).append rfl
      | update x =>
          unfold Call.note FactChange.after at hk
          rw [Table.get?_insert] at hk
          refine (ih ?_).append rfl
          cases hx : x.key == k with
          | true =>
              have hthere : s.facts.contains x.key := by
                by_contra hmissing
                obtain ⟨e, -, hrefused⟩ := update_refuses (f := x) husable fun hu => hmissing hu.2
                cases hrun.symm.trans hrefused
              rw [Table.contains_eq_isSome, Table.get?_congr _ hx] at hthere
              exact Option.isSome_iff_exists.mp hthere
          | false =>
              rw [if_neg (by simp [hx])] at hk
              exact hk
      | retract x =>
          unfold Call.note FactChange.after at hk
          rw [(hreached.facts_distinct hf husable).get?_erase] at hk
          cases hx : x.key == k with
          | true =>
              rw [if_pos hx] at hk
              cases hk.choose_spec
          | false =>
              rw [if_neg (by simp [hx])] at hk
              exact (ih hk).append hx
      | calculateScore | constraintTotals | constraintMatches | explainScore | indictments =>
          exact (ih hk).append rfl

variable {N : Naming V} {settings : FactorySettings S} {domain : DomainModel V}
  {written : List (Written V S)} {chosen : List Constraint}

/-- A session that every fact was taken back from has no facts, and settles to a network in which
nothing is left. -/
theorem emptied_of_takesBack (hf : f.ProvidedBy N settings domain written chosen)
    (h : Ran f facts calls s) (hback : takesBack (facts.map .insert ++ calls))
    (hrun : Network.settle.run.run s.network = (.ok n, net)) :
    (∀ k, s.facts.get? k = none) ∧ net.Cleared := by
  obtain ⟨-, -, b, ho⟩ := hf.origin
  obtain ⟨hreached, husable, -⟩ := h.facts_eq ho.formed
  have hfacts : ∀ k, s.facts.get? k = none := fun k => by
    by_contra hk
    exact not_leavesOver hback (h.leavesOver ho.formed (Option.ne_none_iff_exists'.mp hk))
  refine ⟨hfacts, ?_⟩
  obtain ⟨hcompiled, hm, hidle, hsame⟩ := hreached.settles ho.formed husable hrun
  have hspec := Network.compile_spec hcompiled
  have hw := hspec.wired ho.formed
  refine (hm.sound hw hspec.unused).cleared hw (hm.tidy hw hspec.unused) hidle fun k => ?_
  rw [hsame, hfacts k]

/-- Taking back the coins, some of them before another score, clears their network. -/
theorem emptied_of_takesBack_coins : ∃ k net,
    Network.settle.run.run Coin.emptied.network = (.ok k, net) ∧ net.Cleared := by
  obtain ⟨c, d, chosen, hf⟩ := Coin.factory_provided
  obtain ⟨hran, k, net, hrun⟩ := Coin.emptied_ran
  exact ⟨k, net, hrun, (emptied_of_takesBack hf hran (by decide) hrun).2⟩

end Session

end ConstraintScoring
