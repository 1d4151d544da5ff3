import ConstraintScoring.Proofs.Coin
import ConstraintScoring.Proofs.Query.Meaning

/-!
# What a joiner asks of two rows

A joiner is a tree of leaves, each of which puts a condition on a left and a right row. Compiled, its
equality leaves become keys, one cell a leaf on either side and in the order in which the leaves
stand, and all other leaves become conditions. Two rows join exactly if every leaf holds on them.
-/

namespace ConstraintScoring

/-- One of two things, by side. -/
def Side.pick {α : Type} (left right : α) : Side → α
  | .left => left
  | .right => right

variable {V : Type} [Cell V]

/-- The order that a comparison asks for, said with the strict order alone. -/
def Comparison.Orders : Comparison → V → V → Prop
  | less, a, b => compare a b = .lt
  | lessEqual, a, b => compare b a ≠ .lt
  | greater, a, b => compare b a = .lt
  | greaterEqual, a, b => compare a b ≠ .lt

theorem Comparison.accepts_iff [Std.TransOrd V] (c : Comparison) (a b : V) :
    c.accepts (compare a b) = true ↔ c.Orders a b := by
  have hswap : compare b a = .lt ↔ compare a b = .gt := Std.OrientedCmp.gt_iff_lt.symm
  cases c with
  | less => simp [accepts, Orders]
  | lessEqual => simp [accepts, Orders, hswap]
  | greater => simp [accepts, Orders, hswap]
  | greaterEqual => simp [accepts, Orders]

theorem Cell.sameAll_append_iff {as bs cs ds : List V} (h : as.length = cs.length) :
    sameAll (as ++ bs) (cs ++ ds) = true ↔ sameAll as cs = true ∧ sameAll bs ds = true := by
  induction as generalizing cs with
  | nil =>
      obtain rfl := List.length_eq_zero_iff.mp h.symm
      simp [sameAll]
  | cons a as ih =>
      cases cs with
      | nil => cases h
      | cons c cs => simp [sameAll, ih (Nat.succ.inj h), and_assoc]

namespace JoinIndexer

variable {a b : JoinIndexer V} {l r row : Row V} {k : Key V}

/-- The mappings for the key of a side. -/
def mappings (j : JoinIndexer V) : Side → List (Row V → Except Fault V) := Side.pick j.left j.right

omit [Cell V] in
theorem key_eq_ok (side : Side) :
    a.key side row = .ok k ↔ (a.mappings side).mapM (· row) = .ok k.cells := by
  cases side <;>
    exact Outcome.bind_eq_ok.trans
      ⟨fun ⟨vs, hvs, hk⟩ => Except.ok.inj hk ▸ hvs, fun h => ⟨k.cells, h, rfl⟩⟩

omit [Cell V] in
theorem length_of_key (side : Side) (h : a.key side row = .ok k) :
    (a.mappings side).length = k.cells.length :=
  (Outcome.mapM_eq_ok.mp ((key_eq_ok side).mp h)).length_eq

omit [Cell V] in
/-- A merged joiner puts the cells of the second key behind those of the first. -/
theorem key_merge_eq_ok (side : Side) : (a.merge b).key side row = .ok k ↔
    ∃ m n, a.key side row = .ok m ∧ b.key side row = .ok n ∧ k = ⟨m.cells ++ n.cells⟩ := by
  have happend : (a.merge b).mappings side = a.mappings side ++ b.mappings side := by
    cases side <;> rfl
  rw [key_eq_ok, happend, Outcome.mapM_append_eq_ok]
  constructor
  · rintro ⟨as, bs, has, hbs, hk⟩
    exact ⟨⟨as⟩, ⟨bs⟩, (key_eq_ok side).mpr has, (key_eq_ok side).mpr hbs, congrArg Key.mk hk⟩
  · rintro ⟨m, n, hm, hn, rfl⟩
    exact ⟨m.cells, n.cells, (key_eq_ok side).mp hm, (key_eq_ok side).mp hn, rfl⟩

/-- Keys with equally many cells on both sides stay aligned when two joiners are merged. -/
theorem meets_merge (h : a.left.length = a.right.length) :
    (a.merge b).Meets l r ↔ a.Meets l r ∧ b.Meets l r := by
  constructor
  · rintro ⟨k, k', hk, hk', heq⟩
    obtain ⟨m, n, hm, hn, rfl⟩ := (key_merge_eq_ok .left).mp hk
    obtain ⟨m', n', hm', hn', rfl⟩ := (key_merge_eq_ok .right).mp hk'
    have hlength : m.cells.length = m'.cells.length :=
      (length_of_key .left hm).symm.trans (h.trans (length_of_key .right hm'))
    obtain ⟨hmm, hnn⟩ := (Cell.sameAll_append_iff hlength).mp heq
    exact ⟨⟨m, m', hm, hm', hmm⟩, n, n', hn, hn', hnn⟩
  · rintro ⟨⟨m, m', hm, hm', hmm⟩, n, n', hn, hn', hnn⟩
    exact ⟨_, _, (key_merge_eq_ok .left).mpr ⟨m, n, hm, hn, rfl⟩,
      (key_merge_eq_ok .right).mpr ⟨m', n', hm', hn', rfl⟩, Cell.sameAll_append hmm hnn⟩

omit [Cell V] in
theorem allHold_append (cs ds : List (PairCondition V)) :
    allHold (cs ++ ds) l r =
      allHold cs l r >>= fun passes => if passes then allHold ds l r else .ok false := by
  induction cs with
  | nil => rfl
  | cons c cs ih =>
      change (c l r >>= fun passes => if passes then allHold (cs ++ ds) l r else .ok false) = _
      change _ = (c l r >>= fun passes => if passes then allHold cs l r else .ok false) >>= _
      rcases c l r with f | _ | _
      · rfl
      · rfl
      · exact ih

omit [Cell V] in
/-- The conditions of both joiners are tried, those of the second one only if the first accepts. -/
theorem accepts_merge : (a.merge b).accepts l r =
    a.accepts l r >>= fun passes => if passes then b.accepts l r else .ok false :=
  allHold_append a.conditions b.conditions

/-- Two rows that a merged joiner accepts are those that both of its joiners accept. -/
theorem joins_merge (h : a.left.length = a.right.length) :
    (a.merge b).Joins l r ↔ a.Joins l r ∧ b.Joins l r := by
  unfold Joins
  rw [meets_merge h, accepts_merge, Outcome.bind_eq_ok]
  constructor
  · rintro ⟨⟨hma, hmb⟩, _ | _, ha, hb⟩
    · cases hb
    · exact ⟨⟨hma, ha⟩, hmb, hb⟩
  · rintro ⟨⟨hma, ha⟩, hmb, hb⟩
    exact ⟨⟨hma, hmb⟩, true, ha, hb⟩

end JoinIndexer

namespace Joiner

/-- Every leaf of the joiner holds on the two rows. -/
def Holds : Joiner V → Row V → Row V → Prop
  | all, _, _ => True
  | equal left right, l, r =>
      ∃ a b, left.run l = .ok a ∧ right.run r = .ok b ∧ Cell.same a b = true
  | compare c left right, l, r => ∃ a b, left.run l = .ok a ∧ right.run r = .ok b ∧ c.Orders a b
  | overlapping leftStart leftEnd rightStart rightEnd, l, r =>
      ∃ ls le rs re, leftStart.run l = .ok ls ∧ leftEnd.run l = .ok le ∧
        rightStart.run r = .ok rs ∧ rightEnd.run r = .ok re ∧
        Ord.compare ls re = .lt ∧ Ord.compare rs le = .lt
  | filtering accepts, l, r => accepts.run (l ++ r) = .ok true
  | and first second, l, r => first.Holds l r ∧ second.Holds l r

omit [Cell V] in
/-- Every function of the joiner gives a value on the two rows. -/
def Runs : Joiner V → Row V → Row V → Prop
  | all, _, _ => True
  | equal left right, l, r | compare _ left right, l, r =>
      (∃ a, left.run l = .ok a) ∧ ∃ b, right.run r = .ok b
  | overlapping leftStart leftEnd rightStart rightEnd, l, r =>
      ((∃ ls, leftStart.run l = .ok ls) ∧ ∃ le, leftEnd.run l = .ok le) ∧
        (∃ rs, rightStart.run r = .ok rs) ∧ ∃ re, rightEnd.run r = .ok re
  | filtering accepts, l, r => ∃ passes, accepts.run (l ++ r) = .ok passes
  | and first second, l, r => first.Runs l r ∧ second.Runs l r

omit [Cell V] in
/-- The mappings of the equality leaves, from left to right. -/
def equalities : Joiner V → List (Side → RowFunction V V)
  | equal left right => [Side.pick left right]
  | and first second => first.equalities ++ second.equalities
  | all | compare _ _ _ | overlapping _ _ _ _ | filtering _ => []

theorem mappings_compile (j : Joiner V) (side : Side) :
    j.compile.mappings side = j.equalities.map fun e => (e side).run := by
  induction j with
  | equal left right => cases side <;> rfl
  | and first second ih ih' =>
      rw [equalities, List.map_append, ← ih, ← ih']
      cases side <;> rfl
  | _ => cases side <;> rfl

/-- A joiner has as many keys on the left as on the right. -/
theorem length_compile (j : Joiner V) : j.compile.left.length = j.compile.right.length := by
  have hleft := congrArg List.length (j.mappings_compile .left)
  have hright := congrArg List.length (j.mappings_compile .right)
  rw [List.length_map] at hleft hright
  exact hleft.trans hright.symm

variable {l r : Row V}

/-- The key of a row has a cell for each equality leaf, in the order of the leaves. -/
theorem key_eq_ok (j : Joiner V) (side : Side) {row : Row V} {k : Key V} :
    j.compile.key side row = .ok k ↔
      List.Forall₂ (fun e v => (e side).run row = .ok v) j.equalities k.cells := by
  rw [JoinIndexer.key_eq_ok, Outcome.mapM_eq_ok, mappings_compile, List.forall₂_map_left_iff]

/-- Rows joined on one equality alone. -/
theorem joins_equal (left right : RowFunction V V) :
    (equal left right).compile.Joins l r ↔ (equal left right).Holds l r := by
  constructor
  · rintro ⟨⟨⟨ks⟩, ⟨ks'⟩, hk, hk', heq⟩, -⟩
    cases ((equal left right).key_eq_ok .left).mp hk with
    | cons ha has =>
        cases ((equal left right).key_eq_ok .right).mp hk' with
        | cons hb hbs =>
            cases has
            cases hbs
            exact ⟨_, _, ha, hb, (Bool.and_eq_true_iff.mp heq).1⟩
  · rintro ⟨a, b, ha, hb, hab⟩
    refine ⟨⟨⟨[a]⟩, ⟨[b]⟩, ?_, ?_, Bool.and_eq_true_iff.mpr ⟨hab, rfl⟩⟩, rfl⟩
    · exact ((equal left right).key_eq_ok .left).mpr (.cons ha .nil)
    · exact ((equal left right).key_eq_ok .right).mpr (.cons hb .nil)

omit [Cell V] in
theorem accepts_condition (c : PairCondition V) :
    (⟨[], [], [c]⟩ : JoinIndexer V).accepts l r = c l r := by
  change (c l r >>= fun passes => if passes then .ok true else .ok false) = c l r
  rcases c l r with f | _ | _ <;> rfl

/-- Rows joined on one condition alone: their keys are empty. -/
theorem joins_condition (c : PairCondition V) :
    (⟨[], [], [c]⟩ : JoinIndexer V).Joins l r ↔ c l r = .ok true := by
  have hmeets : (⟨[], [], [c]⟩ : JoinIndexer V).Meets l r := ⟨⟨[]⟩, ⟨[]⟩, rfl, rfl, rfl⟩
  unfold JoinIndexer.Joins
  rw [accepts_condition]
  exact and_iff_right hmeets

theorem compareCondition_eq_true [Std.TransOrd V] {c : Comparison} {left right : RowFunction V V} :
    compareCondition c left right l r = .ok true ↔ (compare c left right).Holds l r := by
  unfold compareCondition Holds
  simp only [Outcome.bind_eq_ok]
  constructor
  · rintro ⟨a, ha, b, hb, hc⟩
    exact ⟨a, b, ha, hb, (c.accepts_iff a b).mp (Except.ok.inj hc)⟩
  · rintro ⟨a, b, ha, hb, hc⟩
    exact ⟨a, ha, b, hb, congrArg Except.ok ((c.accepts_iff a b).mpr hc)⟩

theorem overlapCondition_eq_true {leftStart leftEnd rightStart rightEnd : RowFunction V V} :
    overlapCondition leftStart leftEnd rightStart rightEnd l r = .ok true ↔
      (overlapping leftStart leftEnd rightStart rightEnd).Holds l r := by
  unfold overlapCondition Holds
  simp only [Outcome.bind_eq_ok]
  constructor
  · rintro ⟨ls, hls, re, hre, h⟩
    split at h
    · rename_i hlt
      obtain ⟨rs, hrs, h⟩ := Outcome.bind_eq_ok.mp h
      obtain ⟨le, hle, h⟩ := Outcome.bind_eq_ok.mp h
      exact ⟨ls, le, rs, re, hls, hle, hrs, hre, beq_iff_eq.mp hlt,
        beq_iff_eq.mp (Except.ok.inj h)⟩
    · cases h
  · rintro ⟨ls, le, rs, re, hls, hle, hrs, hre, hlt, hlt'⟩
    refine ⟨ls, hls, re, hre, ?_⟩
    rw [if_pos (beq_iff_eq.mpr hlt), Outcome.bind_eq_ok]
    refine ⟨rs, hrs, Outcome.bind_eq_ok.mpr ⟨le, hle, ?_⟩⟩
    exact congrArg Except.ok (beq_iff_eq.mpr hlt')

/-- Two rows join exactly if every leaf holds on them, whether or not the functions of the joiner
give values on other rows. -/
theorem joins_iff_holds [Std.TransOrd V] (j : Joiner V) :
    j.compile.Joins l r ↔ j.Holds l r := by
  induction j with
  | all => exact iff_of_true ⟨⟨⟨[]⟩, ⟨[]⟩, rfl, rfl, rfl⟩, rfl⟩ trivial
  | equal left right => exact joins_equal left right
  | compare c left right => exact (joins_condition _).trans compareCondition_eq_true
  | overlapping leftStart leftEnd rightStart rightEnd =>
      exact (joins_condition _).trans overlapCondition_eq_true
  | filtering accepts => exact joins_condition _
  | and first second ih ih' =>
      exact (JoinIndexer.joins_merge first.length_compile).trans (and_congr ih ih')

namespace Runs

variable {j : Joiner V}

theorem key (h : j.Runs l r) (side : Side) : ∃ k, j.compile.key side (side.pick l r) = .ok k := by
  induction j with
  | equal left right =>
      obtain ⟨⟨a, ha⟩, b, hb⟩ := h
      cases side with
      | left => exact ⟨⟨[a]⟩, ((equal left right).key_eq_ok .left).mpr (.cons ha .nil)⟩
      | right => exact ⟨⟨[b]⟩, ((equal left right).key_eq_ok .right).mpr (.cons hb .nil)⟩
  | and first second ih ih' =>
      obtain ⟨m, hm⟩ := ih h.1
      obtain ⟨n, hn⟩ := ih' h.2
      exact ⟨_, (JoinIndexer.key_merge_eq_ok side).mpr ⟨m, n, hm, hn, rfl⟩⟩
  | _ => cases side <;> exact ⟨⟨[]⟩, rfl⟩

theorem accepts (h : j.Runs l r) : ∃ passes, j.compile.accepts l r = .ok passes := by
  induction j with
  | all | equal left right => exact ⟨true, rfl⟩
  | compare c left right =>
      obtain ⟨⟨a, ha⟩, b, hb⟩ := h
      refine ⟨c.accepts (Ord.compare a b), (accepts_condition _).trans ?_⟩
      exact Outcome.bind_eq_ok.mpr ⟨a, ha, Outcome.bind_eq_ok.mpr ⟨b, hb, rfl⟩⟩
  | overlapping leftStart leftEnd rightStart rightEnd =>
      obtain ⟨⟨⟨ls, hls⟩, le, hle⟩, ⟨rs, hrs⟩, re, hre⟩ := h
      simp only [compile, accepts_condition, overlapCondition, Outcome.bind_eq_ok]
      by_cases hlt : (Ord.compare ls re == .lt) = true
      · refine ⟨Ord.compare rs le == .lt, ls, hls, re, hre, (if_pos hlt).trans ?_⟩
        exact Outcome.bind_eq_ok.mpr ⟨rs, hrs, Outcome.bind_eq_ok.mpr ⟨le, hle, rfl⟩⟩
      · exact ⟨false, ls, hls, re, hre, if_neg hlt⟩
  | filtering accepts =>
      obtain ⟨passes, hpasses⟩ := h
      exact ⟨passes, (accepts_condition _).trans hpasses⟩
  | and first second ih ih' =>
      obtain ⟨passes, hfirst⟩ := ih h.1
      change ∃ passes, (first.compile.merge second.compile).accepts l r = .ok passes
      rw [JoinIndexer.accepts_merge, hfirst]
      cases passes with
      | false => exact ⟨false, rfl⟩
      | true => exact ih' h.2

end Runs

/-- The keys of a compiled joiner have one cell an equality leaf, in the order of the leaves, and it
accepts two rows on which its functions give values exactly if every leaf holds on them. -/
theorem compile_exact [Std.TransOrd V] (j : Joiner V) :
    (∀ side row k, j.compile.key side row = .ok k ↔
      List.Forall₂ (fun e v => (e side).run row = .ok v) j.equalities k.cells) ∧
    ∀ l r, j.Runs l r → ∃ k k' passes, j.compile.leftKey l = .ok k ∧
      j.compile.rightKey r = .ok k' ∧ j.compile.accepts l r = .ok passes ∧
      ((k == k') = true ∧ passes = true ↔ j.Holds l r) := by
  refine ⟨fun side row k => j.key_eq_ok side, fun l r h => ?_⟩
  obtain ⟨k, hk⟩ := h.key .left
  obtain ⟨k', hk'⟩ := h.key .right
  obtain ⟨passes, haccepts⟩ := h.accepts
  refine ⟨k, k', passes, hk, hk', haccepts, ?_⟩
  rw [← joins_iff_holds]
  constructor
  · rintro ⟨heq, rfl⟩
    exact ⟨⟨k, k', hk, hk', heq⟩, haccepts⟩
  · rintro ⟨⟨m, m', hm, hm', heq⟩, htrue⟩
    cases hk.symm.trans hm
    cases hk'.symm.trans hm'
    exact ⟨heq, Except.ok.inj (haccepts.symm.trans htrue)⟩

/-- Good coins of one worth, two of whose four leaves are equalities. -/
def ofCoins : Joiner Coin :=
  .and (.and (.filtering Coin.isGood) (.equal Coin.worthOf Coin.worthOf))
    (.and (.compare .lessEqual Coin.worthOf Coin.worthOf) (.equal Coin.worthOf Coin.worthOf))

/-- The two sides of a coin belong together, and have keys of two cells. -/
theorem compile_exact_coins : ofCoins.Runs [⟨5, true⟩] [⟨5, false⟩] ∧
    ∃ k k' passes, ofCoins.compile.leftKey [⟨5, true⟩] = .ok k ∧
      ofCoins.compile.rightKey [⟨5, false⟩] = .ok k' ∧
      ofCoins.compile.accepts [⟨5, true⟩] [⟨5, false⟩] = .ok passes ∧
      k.cells.length = 2 ∧ (k == k') = true ∧ passes = true := by
  have hruns : ofCoins.Runs [⟨5, true⟩] [⟨5, false⟩] :=
    ⟨⟨⟨_, rfl⟩, ⟨_, rfl⟩, _, rfl⟩, ⟨⟨_, rfl⟩, _, rfl⟩, ⟨_, rfl⟩, _, rfl⟩
  have horder : Comparison.lessEqual.Orders (⟨5, true⟩ : Coin) ⟨5, false⟩ := by
    unfold Comparison.Orders
    decide
  have hholds : ofCoins.Holds [⟨5, true⟩] [⟨5, false⟩] :=
    ⟨⟨rfl, _, _, rfl, rfl, rfl⟩, ⟨_, _, rfl, rfl, horder⟩, _, _, rfl, rfl, rfl⟩
  obtain ⟨hkey, hall⟩ := compile_exact ofCoins
  obtain ⟨k, k', passes, hk, hk', haccepts, hiff⟩ := hall _ _ hruns
  obtain ⟨heq, hpasses⟩ := hiff.mpr hholds
  exact ⟨hruns, k, k', passes, hk, hk', haccepts,
    ((hkey .left _ k).mp hk).length_eq.symm, heq, hpasses⟩

end Joiner

end ConstraintScoring
