import ConstraintScoring.Proofs.Stream.Joining

/-!
# Overlapping intervals

An interval holds the points from its start up to but not including its stop, so one that stops
where it starts, or before, holds none. The overlapping joiner asks whether each of two intervals
starts before the other stops. Of intervals that hold points this says that they have one in common.
An interval without points is accepted as well, if both its ends lie strictly inside the other one.
-/

namespace ConstraintScoring

/-- The points from the start up to but not including the stop. -/
structure Interval (V : Type) where
  start : V
  stop : V

namespace Interval

variable {V : Type}

/-- The interval that two functions make of a row. -/
def IsOf (i : Interval V) (start stop : RowFunction V V) (row : Row V) : Prop :=
  start.run row = .ok i.start ∧ stop.run row = .ok i.stop

variable [Ord V] {i j : Interval V}

def Contains (i : Interval V) (p : V) : Prop := (compare i.start p).isLE ∧ compare p i.stop = .lt

/-- The interval holds no point. -/
def Blank (i : Interval V) : Prop := ∀ p, ¬ i.Contains p

def Overlaps (i j : Interval V) : Prop := ∃ p, i.Contains p ∧ j.Contains p

/-- Both ends of the first interval lie strictly between those of the second. -/
def Inside (i j : Interval V) : Prop :=
  ∀ e ∈ [i.start, i.stop], compare j.start e = .lt ∧ compare e j.stop = .lt

/-- Each of the intervals starts before the other stops. -/
def Crosses (i j : Interval V) : Prop :=
  compare i.start j.stop = .lt ∧ compare j.start i.stop = .lt

instance (i j : Interval V) : Decidable (i.Crosses j) := inferInstanceAs (Decidable (_ ∧ _))

/-- The first interval stops where the second one starts. -/
def Touches (i j : Interval V) : Prop := compare i.stop j.start = .eq

theorem crosses_comm : i.Crosses j ↔ j.Crosses i := and_comm

variable [Std.TransOrd V]

/-- If an interval holds any point, it holds its start. -/
theorem blank_iff : i.Blank ↔ (compare i.stop i.start).isLE := by
  constructor
  · intro h
    by_contra hle
    exact h i.start ⟨Std.ReflCmp.isLE_rfl, Std.OrientedCmp.lt_of_not_isLE hle⟩
  · intro hle p ⟨hstart, hstop⟩
    have hlt := Std.TransCmp.lt_of_isLE_of_lt hstart hstop
    exact Std.OrientedCmp.not_isLE_of_lt hlt hle

theorem start_lt_stop (h : ¬ i.Blank) : compare i.start i.stop = .lt :=
  Std.OrientedCmp.lt_of_not_isLE (mt blank_iff.mpr h)

theorem Overlaps.crosses (h : i.Overlaps j) : i.Crosses j := by
  obtain ⟨p, hi, hj⟩ := h
  exact ⟨Std.TransCmp.lt_of_isLE_of_lt hi.1 hj.2, Std.TransCmp.lt_of_isLE_of_lt hj.1 hi.2⟩

/-- Of two intervals with points that cross, the one that starts later starts in the other. -/
theorem Crosses.overlaps (h : i.Crosses j) (hi : ¬ i.Blank) (hj : ¬ j.Blank) : i.Overlaps j := by
  by_cases hle : (compare i.start j.start).isLE
  · exact ⟨j.start, ⟨hle, h.2⟩, Std.ReflCmp.isLE_rfl, start_lt_stop hj⟩
  · have hlt : compare j.start i.start = .lt := Std.OrientedCmp.lt_of_not_isLE hle
    exact ⟨i.start, ⟨Std.ReflCmp.isLE_rfl, start_lt_stop hi⟩, Ordering.isLE_of_eq_lt hlt, h.1⟩

/-- An interval without points has its ends together, or the wrong way round: it crosses another just
if both ends lie inside that one. -/
theorem Blank.crosses_iff (h : i.Blank) : i.Crosses j ↔ i.Inside j := by
  have hle := blank_iff.mp h
  constructor
  · rintro ⟨hstart, hstop⟩
    have hfirst : compare j.start i.start = .lt := Std.TransCmp.lt_of_lt_of_isLE hstop hle
    have hlast : compare i.stop j.stop = .lt := Std.TransCmp.lt_of_isLE_of_lt hle hstart
    exact List.forall_mem_cons.mpr
      ⟨⟨hfirst, hstart⟩, List.forall_mem_singleton.mpr ⟨hstop, hlast⟩⟩
  · intro hinside
    exact ⟨(hinside i.start (by simp)).2, (hinside i.stop (by simp)).1⟩

theorem crosses_iff :
    i.Crosses j ↔ i.Overlaps j ∨ (i.Blank ∧ i.Inside j) ∨ (j.Blank ∧ j.Inside i) := by
  constructor
  · intro h
    by_cases hi : i.Blank
    · exact Or.inr (Or.inl ⟨hi, hi.crosses_iff.mp h⟩)
    · by_cases hj : j.Blank
      · exact Or.inr (Or.inr ⟨hj, hj.crosses_iff.mp (crosses_comm.mp h)⟩)
      · exact Or.inl (h.overlaps hi hj)
  · rintro (h | ⟨hi, h⟩ | ⟨hj, h⟩)
    · exact h.crosses
    · exact hi.crosses_iff.mpr h
    · exact crosses_comm.mpr (hj.crosses_iff.mpr h)

theorem Touches.not_crosses (h : i.Touches j) : ¬ i.Crosses j := by
  rintro ⟨-, hstop⟩
  rw [Std.OrientedCmp.eq_symm h] at hstop
  cases hstop

end Interval

namespace Joiner

variable {V : Type} [Cell V] {leftStart leftEnd rightStart rightEnd : RowFunction V V}
  {l r : Row V} {i j : Interval V}

theorem holds_overlapping_iff (hi : i.IsOf leftStart leftEnd l)
    (hj : j.IsOf rightStart rightEnd r) :
    (overlapping leftStart leftEnd rightStart rightEnd).Holds l r ↔ i.Crosses j := by
  constructor
  · rintro ⟨ls, le, rs, re, hls, hle, hrs, hre, hlt, hlt'⟩
    obtain rfl := Except.ok.inj (hi.1.symm.trans hls)
    obtain rfl := Except.ok.inj (hi.2.symm.trans hle)
    obtain rfl := Except.ok.inj (hj.1.symm.trans hrs)
    obtain rfl := Except.ok.inj (hj.2.symm.trans hre)
    exact ⟨hlt, hlt'⟩
  · rintro ⟨hlt, hlt'⟩
    exact ⟨_, _, _, _, hi.1, hi.2, hj.1, hj.2, hlt, hlt'⟩

theorem accepts_overlapping (hi : i.IsOf leftStart leftEnd l)
    (hj : j.IsOf rightStart rightEnd r) :
    (overlapping leftStart leftEnd rightStart rightEnd).compile.accepts l r =
      .ok (decide (i.Crosses j)) := by
  have hruns : (overlapping leftStart leftEnd rightStart rightEnd).Runs l r :=
    ⟨⟨⟨_, hi.1⟩, _, hi.2⟩, ⟨_, hj.1⟩, _, hj.2⟩
  obtain ⟨passes, hpasses⟩ := hruns.accepts
  have hcondition : overlapCondition leftStart leftEnd rightStart rightEnd l r = .ok passes :=
    (accepts_condition _).symm.trans hpasses
  have htrue : passes = true ↔ i.Crosses j := by
    rw [← holds_overlapping_iff hi hj, ← overlapCondition_eq_true, hcondition]
    exact ⟨congrArg Except.ok, Except.ok.inj⟩
  rw [hpasses, Bool.eq_iff_iff.mpr (htrue.trans decide_eq_true_iff.symm)]

/-- On rows from which it reads two intervals, the overlapping joiner gives an answer, and the same
one when the sides are exchanged. Intervals that both hold points are accepted just if they have one
in common. All that is accepted besides is an interval without points whose ends lie strictly inside
the other one. Intervals of which one stops where the other starts are never accepted. -/
theorem overlapping_accepts [Std.TransOrd V] (hi : i.IsOf leftStart leftEnd l)
    (hj : j.IsOf rightStart rightEnd r) :
    ∃ passes, (overlapping leftStart leftEnd rightStart rightEnd).compile.accepts l r = .ok passes ∧
      (overlapping rightStart rightEnd leftStart leftEnd).compile.accepts r l = .ok passes ∧
      (¬ i.Blank → ¬ j.Blank → (passes = true ↔ i.Overlaps j)) ∧
      (passes = true ↔ i.Overlaps j ∨ (i.Blank ∧ i.Inside j) ∨ (j.Blank ∧ j.Inside i)) ∧
      (i.Touches j ∨ j.Touches i → passes = false) := by
  refine ⟨decide (i.Crosses j), accepts_overlapping hi hj, ?_, fun hi hj => ?_, ?_, fun h => ?_⟩
  · rw [accepts_overlapping hj hi, decide_eq_decide.mpr Interval.crosses_comm]
  · rw [decide_eq_true_iff]
    exact ⟨fun h => h.overlaps hi hj, Interval.Overlaps.crosses⟩
  · rw [decide_eq_true_iff]
    exact Interval.crosses_iff
  · rcases h with h | h
    · exact decide_eq_false h.not_crosses
    · exact decide_eq_false (mt Interval.crosses_comm.mp h.not_crosses)

/-- The last of some coins. -/
def lastOfCoins : RowFunction Coin Coin :=
  ⟨none, fun row => match row.getLast? with
    | some c => .ok c
    | none => .error (.raised "no coin")⟩

/-- From five to five there is no coin. -/
def noCoins : Interval Coin := ⟨⟨5, true⟩, ⟨5, false⟩⟩

/-- The coins from nothing to ten. -/
def tenCoins : Interval Coin := ⟨⟨0, true⟩, ⟨10, true⟩⟩

/-- The interval without coins lies inside the other one: they are accepted, and have no coin in
common. -/
theorem overlapping_accepts_coins :
    noCoins.IsOf Coin.worthOf lastOfCoins [noCoins.start, noCoins.stop] ∧
      tenCoins.IsOf Coin.worthOf lastOfCoins [tenCoins.start, tenCoins.stop] ∧
      (overlapping Coin.worthOf lastOfCoins Coin.worthOf lastOfCoins).compile.accepts
        [noCoins.start, noCoins.stop] [tenCoins.start, tenCoins.stop] = .ok true ∧
      ¬ noCoins.Overlaps tenCoins := by
  have hi : noCoins.IsOf Coin.worthOf lastOfCoins [noCoins.start, noCoins.stop] := ⟨rfl, rfl⟩
  have hj : tenCoins.IsOf Coin.worthOf lastOfCoins [tenCoins.start, tenCoins.stop] := ⟨rfl, rfl⟩
  have hblank : noCoins.Blank := Interval.blank_iff.mpr rfl
  have hinside : noCoins.Inside tenCoins := by
    unfold Interval.Inside
    decide
  obtain ⟨passes, haccepts, -, -, hiff, -⟩ := overlapping_accepts hi hj
  rw [hiff.mpr (Or.inr (Or.inl ⟨hblank, hinside⟩))] at haccepts
  exact ⟨hi, hj, haccepts, fun ⟨p, hp, _⟩ => hblank p hp⟩

end Joiner

end ConstraintScoring
