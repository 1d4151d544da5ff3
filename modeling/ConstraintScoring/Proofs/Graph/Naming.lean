import ConstraintScoring.Proofs.Graph.Shape
import Mathlib.Data.List.Forall2

/-!
# What the parameters of an operation stand for

A naming says which function a name may stand for. An operation is coded by a key if each parameter
of the key is the name of the operation's own function in that place, or the number of a function
without a name.
-/

namespace ConstraintScoring

variable {V : Type}

structure Naming (V : Type) where
  test : String → (Row V → Except Fault Bool) → Prop
  cell : String → (Row V → Except Fault V) → Prop
  items : String → (Row V → Except Fault (List V)) → Prop
  /-- By the label of the collector and the name of its function; counting rows takes none. -/
  collector : String → Option String → Collector V → Prop

/-- The naming by which a name may stand for anything. -/
def Naming.any : Naming V :=
  ⟨fun _ _ => True, fun _ _ => True, fun _ _ => True, fun _ _ _ => True⟩

/-- The numbers among some parameters were given out while the counter went from `k` to `l`. -/
structure Numbered (k l : Nat) (ps : List Param) : Prop where
  le : k ≤ l
  range : ∀ n, .function (.own n) ∈ ps → k ≤ n ∧ n < l

namespace Numbered

variable {k l m : Nat} {ps qs : List Param} {p : Param}

theorem nil : Numbered k k [] := ⟨Nat.le_refl k, fun _ h => by cases h⟩

theorem append (h : Numbered k l ps) (h' : Numbered l m qs) : Numbered k m (ps ++ qs) := by
  refine ⟨Nat.le_trans h.le h'.le, fun n hn => ?_⟩
  rcases List.mem_append.mp hn with hn | hn
  · exact ⟨(h.range n hn).1, Nat.lt_of_lt_of_le (h.range n hn).2 h'.le⟩
  · exact ⟨Nat.le_trans h.le (h'.range n hn).1, (h'.range n hn).2⟩

theorem cons (hp : ∀ n, p ≠ .function (.own n)) (h : Numbered k l ps) : Numbered k l (p :: ps) :=
  ⟨h.le, fun n hn => h.range n ((List.mem_cons.mp hn).resolve_left fun he => hp n he.symm)⟩

theorem label (text : String) (h : Numbered k l ps) : Numbered k l (.label text :: ps) :=
  h.cons fun n hn => by cases hn

end Numbered

/-- A parameter that stands for the function. -/
def Param.Codes {β : Type} (R : String → (Row V → Except Fault β) → Prop)
    (f : Row V → Except Fault β) : Param → Prop
  | .function (.named name) => R name f
  | .function (.own _) => True
  | _ => False

namespace RowFunction

variable {β : Type} {R : String → (Row V → Except Fault β) → Prop} {f : RowFunction V β}

/-- The name of the function, if it has one, may stand for it. -/
def Respects (R : String → (Row V → Except Fault β) → Prop) (f : RowFunction V β) : Prop :=
  ∀ name, f.name = some name → R name f.run

theorem param_spec (hf : f.Respects R) (k : Nat) : (f.param.run k).1.Codes R f.run ∧
    Numbered k (f.param.run k).2 [(f.param.run k).1] := by
  cases hname : f.name with
  | some name =>
      have hrun : f.param.run k = (.function (.named name), k) := by
        unfold param
        rw [hname]
        rfl
      rw [hrun]
      exact ⟨hf name hname, Numbered.nil.cons fun n hn => by cases hn⟩
  | none =>
      have hrun : f.param.run k = (.function (.own k), k + 1) := by
        unfold param
        rw [hname]
        rfl
      rw [hrun]
      refine ⟨trivial, Nat.le_succ k, fun n hn => ?_⟩
      obtain rfl : n = k := by simpa using hn
      exact ⟨Nat.le_refl n, Nat.lt_succ_self n⟩

/-- The parameters of several functions, one after another. -/
theorem params_spec {fs : List (RowFunction V β)} (hfs : ∀ f ∈ fs, f.Respects R) (k : Nat) :
    List.Forall₂ (fun p f => Param.Codes R f p) ((fs.mapM param).run k).1 (fs.map (·.run)) ∧
      Numbered k ((fs.mapM param).run k).2 ((fs.mapM param).run k).1 := by
  induction fs generalizing k with
  | nil => exact ⟨.nil, .nil⟩
  | cons f fs ih =>
      obtain ⟨hcodes, hnumbered⟩ := param_spec (hfs f List.mem_cons_self) k
      obtain ⟨hrest, hnumbers⟩ := ih (fun g hg => hfs g (List.mem_cons_of_mem f hg)) (f.param.run k).2
      rw [List.mapM_cons]
      exact ⟨.cons hcodes hrest, hnumbered.append hnumbers⟩

end RowFunction

namespace Joiner

/-- Every function of the joiner may go by its name. -/
def Respects (N : Naming V) : Joiner V → Prop
  | all => True
  | equal left right | compare _ left right => left.Respects N.cell ∧ right.Respects N.cell
  | overlapping ls le rs re =>
      ls.Respects N.cell ∧ le.Respects N.cell ∧ rs.Respects N.cell ∧ re.Respects N.cell
  | filtering accepts => accepts.Respects N.test
  | and first second => first.Respects N ∧ second.Respects N

def Coded (N : Naming V) : Joiner V → List Param → Prop
  | all, ps => ps = []
  | equal left right, ps => ∃ p q, ps = [.label "equal", p, q] ∧ p.Codes N.cell left.run ∧
      q.Codes N.cell right.run
  | compare c left right, ps => ∃ p q, ps = [.label c.label, p, q] ∧ p.Codes N.cell left.run ∧
      q.Codes N.cell right.run
  | overlapping ls le rs re, ps => ∃ p q r s, ps = [.label "overlapping", p, q, r, s] ∧
      p.Codes N.cell ls.run ∧ q.Codes N.cell le.run ∧ r.Codes N.cell rs.run ∧
      s.Codes N.cell re.run
  | filtering accepts, ps => ∃ p, ps = [.label "filtering", p] ∧ p.Codes N.test accepts.run
  | and first second, ps => ∃ qs rs, ps = .label "and" :: (qs ++ rs) ∧ first.Coded N qs ∧
      second.Coded N rs

variable {N : Naming V} [Cell V]

omit [Cell V] in
theorem params_spec {j : Joiner V} (hj : j.Respects N) (k : Nat) :
    j.Coded N (j.params.run k).1 ∧ Numbered k (j.params.run k).2 (j.params.run k).1 := by
  induction j generalizing k with
  | all => exact ⟨rfl, .nil⟩
  | equal left right =>
      obtain ⟨hl, hln⟩ := RowFunction.param_spec hj.1 k
      obtain ⟨hr, hrn⟩ := RowFunction.param_spec hj.2 (left.param.run k).2
      exact ⟨⟨_, _, rfl, hl, hr⟩, (hln.append hrn).label _⟩
  | compare c left right =>
      obtain ⟨hl, hln⟩ := RowFunction.param_spec hj.1 k
      obtain ⟨hr, hrn⟩ := RowFunction.param_spec hj.2 (left.param.run k).2
      exact ⟨⟨_, _, rfl, hl, hr⟩, (hln.append hrn).label _⟩
  | overlapping ls le rs re =>
      obtain ⟨hls, hle, hrs, hre⟩ := hj
      obtain ⟨h₁, n₁⟩ := RowFunction.param_spec hls k
      obtain ⟨h₂, n₂⟩ := RowFunction.param_spec hle (ls.param.run k).2
      obtain ⟨h₃, n₃⟩ := RowFunction.param_spec hrs (le.param.run (ls.param.run k).2).2
      obtain ⟨h₄, n₄⟩ := RowFunction.param_spec hre
        (rs.param.run (le.param.run (ls.param.run k).2).2).2
      exact ⟨⟨_, _, _, _, rfl, h₁, h₂, h₃, h₄⟩, (((n₁.append n₂).append n₃).append n₄).label _⟩
  | filtering accepts =>
      obtain ⟨h, hn⟩ := RowFunction.param_spec hj k
      exact ⟨⟨_, rfl, h⟩, hn.label _⟩
  | and first second ih₁ ih₂ =>
      obtain ⟨h₁, n₁⟩ := ih₁ hj.1 k
      obtain ⟨h₂, n₂⟩ := ih₂ hj.2 (first.params.run k).2
      exact ⟨⟨_, _, rfl, h₁, h₂⟩, (n₁.append n₂).label _⟩

end Joiner

namespace GroupPart

def Respects (N : Naming V) : GroupPart V → Prop
  | key f => f.Respects N.cell
  | column _ => True
  | collector c => if c.kind = .count then N.collector "count" none c
      else ∀ name, c.contribution.name = some name → N.collector c.kind.label (some name) c

def Coded (N : Naming V) : GroupPart V → List Param → Prop
  | key f, ps => ∃ p, ps = [.label "key", p] ∧ p.Codes N.cell f.run
  | column index, ps => ps = [.label "key", .label "distinct", .index index]
  | collector c, ps =>
      if c.kind = .count then ps = [.label "collector", .label "count"] ∧ N.collector "count" none c
      else ∃ p, ps = [.label "collector", .label c.kind.label, p] ∧
        p.Codes (fun name _ => N.collector c.kind.label (some name) c) c.contribution.run

inductive AllCoded (N : Naming V) : List (GroupPart V) → List Param → Prop where
  | nil : AllCoded N [] []
  | cons {p ps qs rs} : Coded N p qs → AllCoded N ps rs → AllCoded N (p :: ps) (qs ++ rs)

variable {N : Naming V}

theorem params_spec {p : GroupPart V} (hp : p.Respects N) (k : Nat) :
    p.Coded N (p.params.run k).1 ∧ Numbered k (p.params.run k).2 (p.params.run k).1 := by
  cases p with
  | key f =>
      obtain ⟨h, hn⟩ := RowFunction.param_spec hp k
      exact ⟨⟨_, rfl, h⟩, hn.label _⟩
  | column index => exact ⟨rfl, ((Numbered.nil.cons fun n hn => by cases hn).label _).label _⟩
  | collector c =>
      by_cases hk : c.kind = .count
      · have hrun : (collector c).params.run k = ([.label "collector", .label "count"], k) := by
          simp only [params, hk]
          rfl
        simp only [Respects, if_pos hk] at hp
        rw [hrun, Coded, if_pos hk]
        exact ⟨⟨rfl, hp⟩, (Numbered.nil.label _).label _⟩
      · have hrun : (collector c).params.run k =
            ([.label "collector", .label c.kind.label, (c.contribution.param.run k).1],
              (c.contribution.param.run k).2) := by
          cases hkind : c.kind <;> simp only [params, hkind] <;> first | rfl | exact absurd hkind hk
        simp only [Respects, if_neg hk] at hp
        obtain ⟨h, hn⟩ := RowFunction.param_spec
          (R := fun name _ => N.collector c.kind.label (some name) c) hp k
        rw [hrun, Coded, if_neg hk]
        exact ⟨⟨_, rfl, h⟩, (hn.label _).label _⟩

theorem allParams_spec {ps : List (GroupPart V)} (hps : ∀ p ∈ ps, p.Respects N) (k : Nat) :
    AllCoded N ps ((allParams ps).run k).1 ∧
      Numbered k ((allParams ps).run k).2 ((allParams ps).run k).1 := by
  induction ps generalizing k with
  | nil => exact ⟨.nil, .nil⟩
  | cons p ps ih =>
      obtain ⟨h, hn⟩ := params_spec (hps p List.mem_cons_self) k
      obtain ⟨hrest, hnumbers⟩ := ih (fun q hq => hps q (List.mem_cons_of_mem p hq)) (p.params.run k).2
      exact ⟨.cons h hrest, hn.append hnumbers⟩

theorem length_keys_collectors (ps : List (GroupPart V)) :
    ps.length = (keys ps).length + (collectors ps).length := by
  induction ps with
  | nil => rfl
  | cons p ps ih =>
      cases p <;> simp only [keys, collectors, List.length_cons, ih] <;> omega

/-- Each part begins with a label of its own. -/
theorem Coded.countP {p : GroupPart V} {ps : List Param} (h : p.Coded N ps) :
    ps.countP (fun p => p = .label "key" ∨ p = .label "collector") = 1 := by
  cases p with
  | key f =>
      obtain ⟨p, rfl, hp⟩ := h
      cases p <;> first | exact hp.elim | rfl
  | column index =>
      obtain rfl : ps = _ := h
      rfl
  | collector c =>
      by_cases hk : c.kind = .count
      · simp only [Coded, if_pos hk] at h
        obtain ⟨rfl, -⟩ := h
        rfl
      · simp only [Coded, if_neg hk] at h
        obtain ⟨p, rfl, hp⟩ := h
        cases p with
        | function id => cases c.kind <;> rfl
        | _ => exact hp.elim

theorem AllCoded.countP {ps : List (GroupPart V)} {params : List Param}
    (h : AllCoded N ps params) :
    ps.length = params.countP fun p => p = .label "key" ∨ p = .label "collector" := by
  induction h with
  | nil => rfl
  | @cons p ps qs rs hp _ ih =>
      rw [List.length_cons, List.countP_append, hp.countP, ih, Nat.add_comm]

end GroupPart

namespace Operation

variable [Cell V]

/-- The operation is what the key says. -/
def Coded (N : Naming V) (key : DeclarationKey) (op : Operation V) : Prop :=
  key.kind = op.kind ∧ match op with
  | source type includeUnassigned => key.params = [.type type, .flag includeUnassigned]
  | foreBridge side => key.params = [.side side]
  | aftBridge | concat => key.params = []
  | filter accepts => ∃ p, key.params = [p] ∧ p.Codes N.test accepts
  | map columns => List.Forall₂ (fun p f => Param.Codes N.cell f p) key.params columns
  | flattenLast expand => ∃ p f, key.params = [p] ∧ p.Codes N.items f.run ∧
      expand = Candidate.expandLast f
  | join indexer => ∃ j, Joiner.Coded N j key.params ∧ indexer = j.compile
  | «exists» shouldExist indexer => ∃ j ps, key.params = .flag shouldExist :: ps ∧
      Joiner.Coded N j ps ∧ indexer = j.compile
  | group keys collectors => ∃ parts, GroupPart.AllCoded N parts key.params ∧
      keys = GroupPart.keys parts ∧ collectors = GroupPart.collectors parts
  | score constraint => key.params = [.index constraint]

end Operation

end ConstraintScoring
