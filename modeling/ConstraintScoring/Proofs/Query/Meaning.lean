import ConstraintScoring.Proofs.Bag
import ConstraintScoring.Proofs.Collector.Row
import ConstraintScoring.Proofs.Graph.Query

/-!
# The relational meaning of queries

A query over some facts denotes a multiset of rows, given step by step as an operation on multisets.
It denotes nothing if a function that a step needs fails on a row, or on a pair of rows with equal
keys. Which of several equal keys stands for a group is left open, so two multisets that a query
denotes may differ in that.

The steps are given first for groups that present their members in any way. What a query denotes has
groups that present what their collectors show; a network has groups that present what their
accumulators happen to hold.
-/

namespace ConstraintScoring

variable {V α β : Type}

/-- The query has no groups. -/
def Query.Groupless : Query V → Prop
  | source _ _ => True
  | filter _ q | map _ q | flattenLast _ q => q.Groupless
  | group _ _ _ => False
  | concat q r | join _ q r | «exists» _ _ q r => q.Groupless ∧ r.Groupless

/-- No collector of the query gives decimal places to a sum. -/
def Query.GivesWhole : Query V → Prop
  | source _ _ => True
  | filter _ q | map _ q | flattenLast _ q => q.GivesWhole
  | group _ collectors q => (∀ c ∈ collectors, c.GivesWhole) ∧ q.GivesWhole
  | concat q r | join _ q r | «exists» _ _ q r => q.GivesWhole ∧ r.GivesWhole

/-- Whether a source for the facts of the class shows a fact. -/
def FactClass.admits (c : FactClass V) (includeUnassigned : Bool) (f : Fact V) :
    Except Fault Bool :=
  if includeUnassigned then .ok true else c.isAssigned f

/-- Each element is answered by one. -/
def Mapped (f : α → Except Fault β) (xs : Multiset α) (ys : Multiset β) : Prop :=
  Multiset.Rel (fun x y => f x = .ok y) xs ys

open Classical in
/-- The elements that pass, all of which could be tried. -/
def Filtered (test : α → Except Fault Bool) (xs ys : Multiset α) : Prop :=
  (∀ x ∈ xs, ∃ passes, test x = .ok passes) ∧ ys = xs.filter fun x => test x = .ok true

/-- Each element is answered by a list. -/
def Flattened (f : α → Except Fault (List β)) (xs : Multiset α) (ys : Multiset β) : Prop :=
  ∃ lists : Multiset (List β), Mapped f xs lists ∧ ys = lists.bind fun l => (l : Multiset β)

/-- One row for each item of the expansion, in place of the last column. -/
def expansion (expand : Row V → Except Fault (List V)) (row : Row V) :
    Except Fault (List (Row V)) :=
  (expand row).map fun items => items.map fun item => row.dropLast ++ [item]

section Pairs

variable [Cell V]

namespace JoinIndexer

/-- Two rows have equal keys. -/
def Meets (j : JoinIndexer V) (l r : Row V) : Prop :=
  ∃ k k', j.leftKey l = .ok k ∧ j.rightKey r = .ok k' ∧ (k == k') = true

/-- Two rows belong together. -/
def Joins (j : JoinIndexer V) (l r : Row V) : Prop := j.Meets l r ∧ j.accepts l r = .ok true

/-- All rows have keys, and the conditions could be tried on all pairs with equal ones. -/
structure Tried (j : JoinIndexer V) (L R : Multiset (Row V)) : Prop where
  left : ∀ l ∈ L, ∃ k, j.leftKey l = .ok k
  right : ∀ r ∈ R, ∃ k, j.rightKey r = .ok k
  pair : ∀ l ∈ L, ∀ r ∈ R, j.Meets l r → ∃ passes, j.accepts l r = .ok passes

open Classical in
/-- One row for each pair that belongs together. -/
def Joined (j : JoinIndexer V) (L R O : Multiset (Row V)) : Prop :=
  j.Tried L R ∧ O = ((L ×ˢ R).filter fun p => j.Joins p.1 p.2).map fun p => p.1 ++ p.2

open Classical in
/-- The left rows to which a right row belongs, or those to which none does. -/
def Selected (j : JoinIndexer V) (shouldExist : Bool) (L R O : Multiset (Row V)) : Prop :=
  j.Tried L R ∧ O = L.filter fun l => (∃ r ∈ R, j.Joins l r) ↔ shouldExist = true

end JoinIndexer

/-- The key of a row and what it contributes to its group. -/
def membership (keys : List (Row V → Except Fault V)) (collectors : List (Collector V)) :
    Row V → Except Fault (GroupMember V) :=
  (GroupNode.new keys collectors).member

variable [Std.TransOrd V]

/-- What the members with a key contribute. -/
def contributionsOf (members : Multiset (GroupMember V)) (k : Key V) :
    Multiset (List (Contribution V)) :=
  (members.filter fun m => (m.key == k) = true).map (·.contributions)

/-- One row for each key that occurs: its cells, and what is presented of its members. -/
def Gathered (presents : Key V → Multiset (List (Contribution V)) → List V → Prop)
    (members : Multiset (GroupMember V)) (O : Multiset (Row V)) : Prop :=
  ∃ ks : List (Key V), ks.Pairwise (fun k l => (k == l) = false) ∧
    (∀ l, (∃ k ∈ ks, (k == l) = true) ↔ ∃ m ∈ members, (m.key == l) = true) ∧
    Multiset.Rel (fun k row => ∃ shown, presents k (contributionsOf members k) shown ∧
      row = k.cells ++ shown) ks O

def Grouped (keys : List (Row V → Except Fault V)) (collectors : List (Collector V))
    (presents : Key V → Multiset (List (Contribution V)) → List V → Prop)
    (R O : Multiset (Row V)) : Prop :=
  ∃ members, Mapped (membership keys collectors) R members ∧ Gathered presents members O

omit [Cell V] [Std.TransOrd V] in
/-- The name of a collector's function has no part in what it collects. -/
theorem membership_unnamed (keys : List (Row V → Except Fault V))
    (collectors : List (Collector V)) :
    membership keys (collectors.map (·.unnamed)) = membership keys collectors := by
  funext row
  unfold membership GroupNode.member GroupNode.new
  simp only [List.mapM_map]
  rfl

omit [Std.TransOrd V] in
theorem Grouped.mono {keys : List (Row V → Except Fault V)} {collectors : List (Collector V)}
    {P Q : Key V → Multiset (List (Contribution V)) → List V → Prop} {R O : Multiset (Row V)}
    (h : Grouped keys collectors P R O) (hPQ : ∀ k bag vs, P k bag vs → Q k bag vs) :
    Grouped keys collectors Q R O := by
  obtain ⟨members, hmembers, ks, hdistinct, hcovers, hrows⟩ := h
  refine ⟨members, hmembers, ks, hdistinct, hcovers, hrows.mono fun k _ row _ hrow => ?_⟩
  obtain ⟨shown, hshown, heq⟩ := hrow
  exact ⟨shown, hPQ _ _ _ hshown, heq⟩

omit [Std.TransOrd V] in
theorem Grouped.unnamed {keys : List (Row V → Except Fault V)} {collectors : List (Collector V)}
    {P : Key V → Multiset (List (Contribution V)) → List V → Prop} {R O : Multiset (Row V)}
    (h : Grouped keys collectors P R O) : Grouped keys (collectors.map (·.unnamed)) P R O := by
  obtain ⟨members, hmembers, hgathered⟩ := h
  exact ⟨members, membership_unnamed keys collectors ▸ hmembers, hgathered⟩

/-- How the groups of a query present the contributions of the members with a key. A group is told
by the sides on which the steps from the end of the query lead to it. -/
def Presentation (V : Type) : Type :=
  List Side → List (Collector V) → Key V → Multiset (List (Contribution V)) → List V → Prop

namespace Presentation

/-- How the groups are presented behind the first step. -/
def under (P : Presentation V) (σ : Side) : Presentation V := fun path => P (σ :: path)

/-- Groups present what their collectors show. -/
def shown : Presentation V := fun _ collectors _ bag vs => AllShow collectors bag vs

end Presentation

/-- The rows that a query yields over some facts with groups that present their members in some
way. -/
inductive Query.Yields (domain : DomainModel V) (facts : Multiset (Fact V)) :
    Presentation V → Query V → Multiset (Row V) → Prop where
  | source {P type includeUnassigned c shown} : domain.class? type = some c →
      Filtered (c.admits includeUnassigned) (facts.filter (·.type = type)) shown →
      Yields domain facts P (.source type includeUnassigned) (shown.map fun f => [f.cell])
  | filter {P accepts q R O} : Yields domain facts (P.under .left) q R → Filtered accepts R O →
      Yields domain facts P (.filter accepts q) O
  | map {P columns q R O} : Yields domain facts (P.under .left) q R →
      Mapped (fun row => columns.mapM (· row)) R O → Yields domain facts P (.map columns q) O
  | flattenLast {P expand q R O} : Yields domain facts (P.under .left) q R →
      Flattened (expansion expand) R O → Yields domain facts P (.flattenLast expand q) O
  | concat {P q q' R R'} : Yields domain facts (P.under .left) q R →
      Yields domain facts (P.under .right) q' R' → Yields domain facts P (.concat q q') (R + R')
  | join {P indexer q q' L R O} : Yields domain facts (P.under .left) q L →
      Yields domain facts (P.under .right) q' R → indexer.Joined L R O →
      Yields domain facts P (.join indexer q q') O
  | exists {P shouldExist indexer q q' L R O} : Yields domain facts (P.under .left) q L →
      Yields domain facts (P.under .right) q' R → indexer.Selected shouldExist L R O →
      Yields domain facts P (.exists shouldExist indexer q q') O
  | group {P keys collectors q R O} : Yields domain facts (P.under .left) q R →
      Grouped keys collectors (P [] collectors) R O →
      Yields domain facts P (.group keys collectors q) O

/-- The rows that a query denotes over some facts. -/
def Query.Denotes (domain : DomainModel V) (facts : Multiset (Fact V)) (q : Query V)
    (R : Multiset (Row V)) : Prop :=
  q.Yields domain facts .shown R

namespace Query.Yields

variable {domain : DomainModel V} {facts : Multiset (Fact V)} {P Q : Presentation V} {q : Query V}
  {R : Multiset (Row V)}

omit [Std.TransOrd V] in
theorem mono (h : q.Yields domain facts P R)
    (hPQ : ∀ path collectors k bag vs, P path collectors k bag vs → Q path collectors k bag vs) :
    q.Yields domain facts Q R := by
  induction h generalizing Q with
  | source hc hshown => exact .source hc hshown
  | filter _ hO ih => exact .filter (ih fun path => hPQ (_ :: path)) hO
  | map _ hO ih => exact .map (ih fun path => hPQ (_ :: path)) hO
  | flattenLast _ hO ih => exact .flattenLast (ih fun path => hPQ (_ :: path)) hO
  | concat _ _ ih ih' =>
      exact .concat (ih fun path => hPQ (_ :: path)) (ih' fun path => hPQ (_ :: path))
  | join _ _ hO ih ih' =>
      exact .join (ih fun path => hPQ (_ :: path)) (ih' fun path => hPQ (_ :: path)) hO
  | «exists» _ _ hO ih ih' =>
      exact .exists (ih fun path => hPQ (_ :: path)) (ih' fun path => hPQ (_ :: path)) hO
  | group _ hO ih => exact .group (ih fun path => hPQ (_ :: path)) (hO.mono (hPQ [] _))

omit [Std.TransOrd V] in
/-- How groups present their members makes no difference where there are none. -/
theorem of_groupless (h : q.Yields domain facts P R) (hq : q.Groupless) :
    q.Yields domain facts Q R := by
  induction h generalizing Q with
  | source hc hshown => exact .source hc hshown
  | filter _ hO ih => exact .filter (ih hq) hO
  | map _ hO ih => exact .map (ih hq) hO
  | flattenLast _ hO ih => exact .flattenLast (ih hq) hO
  | concat _ _ ih ih' => exact .concat (ih hq.1) (ih' hq.2)
  | join _ _ hO ih ih' => exact .join (ih hq.1) (ih' hq.2) hO
  | «exists» _ _ hO ih ih' => exact .exists (ih hq.1) (ih' hq.2) hO
  | group => exact False.elim hq

end Query.Yields

end Pairs

end ConstraintScoring
