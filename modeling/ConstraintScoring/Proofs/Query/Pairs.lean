import ConstraintScoring.Proofs.Node.Rows
import ConstraintScoring.Proofs.Stream.Joining
import ConstraintScoring.Proofs.Stream.Provider

/-!
# Unique pairs

A stream of unique pairs joins the assigned facts of a class with themselves. What it denotes are the
pairs of facts that the joiner takes, the fact with the smaller planning id first, and each pair
once: no fact is paired with itself, and no two facts are paired both ways round.
-/

namespace ConstraintScoring

variable {V : Type} [Cell V]

namespace FactClass

/-- The fact is one of those given, of the type, and assigned. -/
structure Shows (c : FactClass V) (type : String) (facts : Multiset (Fact V)) (x : Fact V) :
    Prop where
  mem : x ∈ facts
  type : x.type = type
  assigned : c.isAssigned x = .ok true

def Precedes (c : FactClass V) (x y : Fact V) : Prop :=
  compare (c.planningId x.cell) (c.planningId y.cell) = .lt

/-- The fact goes by its planning id. -/
def Knows (c : FactClass V) (x : Fact V) : Prop :=
  Cell.same x.id (c.planningId x.cell) = true

omit [Cell V] in
/-- A source of the assigned facts shows the assigned ones, also of a class without others. -/
theorem admits_sourceQuery (c : FactClass V) :
    c.admits (false || !c.canBeUnassigned) = c.isAssigned := by
  funext x
  unfold admits canBeUnassigned isAssigned
  cases c.assigned <;> rfl

end FactClass

/-- Each two facts that the joiner takes, ordered by their planning ids. -/
structure UniquePairs (c : FactClass V) (type : String) (joiner : Joiner V)
    (facts : Multiset (Fact V)) (pairs : Multiset (Fact V × Fact V)) : Prop where
  nodup : pairs.Nodup
  mem_iff : ∀ x y, (x, y) ∈ pairs ↔ c.Shows type facts x ∧ c.Shows type facts y ∧
    c.Precedes x y ∧ joiner.Holds [x.cell] [y.cell]

/-- The row of two facts. -/
def pairRow (p : Fact V × Fact V) : Row V := [p.1.cell, p.2.cell]

namespace UniquePairs

variable [Std.TransOrd V] {c : FactClass V} {type : String} {joiner : Joiner V}
  {facts : Multiset (Fact V)} {pairs : Multiset (Fact V × Fact V)} {x y : Fact V}

/-- No fact is paired with itself. -/
theorem irrefl (h : UniquePairs c type joiner facts pairs) (x : Fact V) : (x, x) ∉ pairs := by
  intro hx
  obtain ⟨-, -, hlt, -⟩ := (h.mem_iff x x).mp hx
  unfold FactClass.Precedes at hlt
  rw [Cell.compare_self] at hlt
  cases hlt

/-- No two facts are paired both ways round. -/
theorem asymm (h : UniquePairs c type joiner facts pairs) (hxy : (x, y) ∈ pairs) :
    (y, x) ∉ pairs := by
  intro hyx
  obtain ⟨-, -, hlt, -⟩ := (h.mem_iff x y).mp hxy
  obtain ⟨-, -, hlt', -⟩ := (h.mem_iff y x).mp hyx
  unfold FactClass.Precedes at hlt hlt'
  rw [Std.OrientedCmp.gt_of_lt hlt] at hlt'
  cases hlt'

/-- Facts with different planning ids are paired one way round if the joiner takes them both ways. -/
theorem mem_or_mem (h : UniquePairs c type joiner facts pairs) (hx : c.Shows type facts x)
    (hy : c.Shows type facts y)
    (hne : Cell.same (c.planningId x.cell) (c.planningId y.cell) = false)
    (hxy : joiner.Holds [x.cell] [y.cell]) (hyx : joiner.Holds [y.cell] [x.cell]) :
    (x, y) ∈ pairs ∨ (y, x) ∈ pairs := by
  rw [h.mem_iff, h.mem_iff]
  cases hcompare : compare (c.planningId x.cell) (c.planningId y.cell) with
  | lt => exact Or.inl ⟨hx, hy, hcompare, hxy⟩
  | eq =>
      rw [Cell.same_iff.mpr hcompare] at hne
      cases hne
  | gt => exact Or.inr ⟨hy, hx, Std.OrientedCmp.lt_of_gt hcompare, hyx⟩

end UniquePairs

namespace StreamCall

variable [Std.TransOrd V] {domain : DomainModel V} {type : String} {c : FactClass V}
  {joiner : Joiner V} {facts : Multiset (Fact V)} {R : Multiset (Row V)}

/-- The query of a stream of unique pairs. -/
def pairQuery (domain : DomainModel V) (type : String) (joiner : Joiner V) : Query V :=
  (forEachUniquePair type joiner).query domain

omit [Std.TransOrd V] in
theorem pairQuery_eq (hc : domain.class? type = some c) : pairQuery domain type joiner =
    .join (pairJoiner type c joiner).compile (domain.sourceQuery type false)
      (domain.sourceQuery type false) := by
  unfold pairQuery
  simp only [query, hc]

omit [Std.TransOrd V] in
theorem pairQuery_groupless (hc : domain.class? type = some c) :
    (pairQuery domain type joiner).Groupless := by
  rw [pairQuery_eq hc]
  exact ⟨trivial, trivial⟩

/-- A source of the assigned facts of a class denotes one row for each of them. -/
theorem source_denotes (hc : domain.class? type = some c)
    (h : (domain.sourceQuery type false).Denotes domain facts R) : ∃ shown : Multiset (Fact V),
      (∀ x, x ∈ shown ↔ c.Shows type facts x) ∧ (facts.Nodup → shown.Nodup) ∧
        R = shown.map fun x => [x.cell] := by
  unfold DomainModel.sourceQuery at h
  rw [hc] at h
  cases h with
  | @source _ _ _ c' shown hc' hshown =>
      obtain rfl := Option.some.inj (hc.symm.trans hc')
      rw [Option.any_some, FactClass.admits_sourceQuery] at hshown
      obtain ⟨-, rfl⟩ := hshown
      refine ⟨_, fun x => ?_, fun hnodup => (hnodup.filter _).filter _, rfl⟩
      rw [Multiset.mem_filter, Multiset.mem_filter]
      exact ⟨fun ⟨⟨hmem, htype⟩, hassigned⟩ => ⟨hmem, htype, hassigned⟩,
        fun h => ⟨⟨h.mem, h.type⟩, h.assigned⟩⟩

/-- The joiner of a stream of unique pairs asks for the order of the planning ids as well. -/
theorem pairJoiner_joins {x y : Fact V} : (pairJoiner type c joiner).compile.Joins [x.cell] [y.cell] ↔
    c.Precedes x y ∧ joiner.Holds [x.cell] [y.cell] := by
  rw [Joiner.joins_iff_holds]
  constructor
  · rintro ⟨hholds, a, b, ha, hb, hlt⟩
    obtain rfl := Except.ok.inj ha
    obtain rfl := Except.ok.inj hb
    exact ⟨hlt, hholds⟩
  · rintro ⟨hlt, hholds⟩
    exact ⟨hholds, _, _, rfl, rfl, hlt⟩

/-- A stream of unique pairs denotes one row for each of them. -/
theorem pairs_denoted (hc : domain.class? type = some c) (hfacts : facts.Nodup)
    (h : (pairQuery domain type joiner).Denotes domain facts R) :
    ∃ pairs, UniquePairs c type joiner facts pairs ∧ R = pairs.map pairRow := by
  classical
  rw [pairQuery_eq hc] at h
  cases h with
  | join hleft hright hjoined =>
      obtain ⟨shown, hmem, hnodup, rfl⟩ := source_denotes hc hleft
      obtain ⟨shown', hmem', hnodup', rfl⟩ := source_denotes hc hright
      obtain ⟨-, rfl⟩ := hjoined
      refine ⟨(shown ×ˢ shown').filter fun p => c.Precedes p.1 p.2 ∧
        joiner.Holds [p.1.cell] [p.2.cell], ⟨?_, fun x y => ?_⟩, ?_⟩
      · exact ((hnodup hfacts).product (hnodup' hfacts)).filter _
      · rw [Multiset.mem_filter, Multiset.mem_product, hmem, hmem', and_assoc]
      · rw [Bag.product_map, Multiset.filter_map, Multiset.map_map]
        congr 1
        refine Multiset.filter_congr fun p _ => ?_
        exact pairJoiner_joins

end StreamCall

end ConstraintScoring
