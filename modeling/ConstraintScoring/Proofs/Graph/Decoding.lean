import ConstraintScoring.Proofs.Graph.Naming
import ConstraintScoring.Proofs.Graph.Query

/-!
# Equal keys compute the same

If every name stands for one function only, a key without functions of their own tells what its
operation computes. The parameters of a joiner are those of its parts one after another, so that a
joiner can be read back from them up to the nesting of its conjunctions.
-/

namespace ConstraintScoring

variable {V : Type}

structure Naming.Functional (N : Naming V) : Prop where
  test : ∀ name f f', N.test name f → N.test name f' → f = f'
  cell : ∀ name f f', N.cell name f → N.cell name f' → f = f'
  items : ∀ name f f', N.items name f → N.items name f' → f = f'
  collector : ∀ label name c c', N.collector label name c → N.collector label name c' →
    c.unnamed = c'.unnamed

/-- No parameter is a function without a name. -/
def AllNamed (ps : List Param) : Prop := ∀ n, .function (.own n) ∉ ps

namespace AllNamed

variable {p : Param} {ps qs : List Param}

theorem head (h : AllNamed (p :: ps)) (n : Nat) : p ≠ .function (.own n) :=
  fun hp => h n (hp ▸ List.mem_cons_self)

theorem tail (h : AllNamed (p :: ps)) : AllNamed ps := fun n hn => h n (List.mem_cons_of_mem p hn)

theorem left (h : AllNamed (ps ++ qs)) : AllNamed ps := fun n hn => h n (List.mem_append_left qs hn)

theorem right (h : AllNamed (ps ++ qs)) : AllNamed qs :=
  fun n hn => h n (List.mem_append_right ps hn)

end AllNamed

namespace Param

variable {β : Type} {R : String → (Row V → Except Fault β) → Prop} {f f' : Row V → Except Fault β}
  {p : Param}

theorem Codes.ne_label (h : p.Codes R f) (text : String) : p ≠ .label text := by
  rintro rfl
  exact h

theorem Codes.unique (hR : ∀ name f f', R name f → R name f' → f = f') (h : p.Codes R f)
    (h' : p.Codes R f') (hp : ∀ n, p ≠ .function (.own n)) : f = f' := by
  cases p with
  | function id =>
      cases id with
      | named name => exact hR name f f' h h'
      | own n => exact absurd rfl (hp n)
  | _ => exact h.elim

end Param

variable {N : Naming V}

theorem codes_unique {β : Type} {R : String → (Row V → Except Fault β) → Prop}
    (hR : ∀ name f f', R name f → R name f' → f = f') {ps : List Param}
    {fs fs' : List (Row V → Except Fault β)}
    (h : List.Forall₂ (fun p f => Param.Codes R f p) ps fs)
    (h' : List.Forall₂ (fun p f => Param.Codes R f p) ps fs') (hps : AllNamed ps) : fs = fs' := by
  induction h generalizing fs' with
  | nil =>
      cases h'
      rfl
  | cons hp _ ih =>
      cases h' with
      | cons hp' hrest =>
          rw [hp.unique hR hp' hps.head, ih hrest hps.tail]

namespace Joiner

variable [Cell V]

/-- The joiner is not a conjunction of others. -/
def Simple : Joiner V → Prop
  | all | and _ _ => False
  | _ => True

/-- Simple joiners one after another, with their parameters. -/
inductive Chain (N : Naming V) : List (Joiner V) → List Param → Prop where
  | nil : Chain N [] []
  | cons {j js ps qs} : j.Simple → Coded N j ps → Chain N js qs → Chain N (j :: js) (ps ++ qs)

def mergeAll (js : List (Joiner V)) : JoinIndexer V :=
  js.foldr (fun j x => j.compile.merge x) ⟨[], [], []⟩

omit [Cell V] in
theorem Chain.append {js ks : List (Joiner V)} {ps qs : List Param} (h : Chain N js ps)
    (h' : Chain N ks qs) : Chain N (js ++ ks) (ps ++ qs) := by
  induction h with
  | nil => exact h'
  | cons hj hp _ ih =>
      rw [List.append_assoc]
      exact .cons hj hp ih

omit [Cell V] in
theorem merge_nil (x : JoinIndexer V) : x.merge ⟨[], [], []⟩ = x := by
  simp [JoinIndexer.merge]

omit [Cell V] in
theorem merge_assoc (x y z : JoinIndexer V) : (x.merge y).merge z = x.merge (y.merge z) := by
  simp [JoinIndexer.merge]

theorem mergeAll_append (js ks : List (Joiner V)) :
    mergeAll (js ++ ks) = (mergeAll js).merge (mergeAll ks) := by
  induction js with
  | nil => simp [mergeAll, JoinIndexer.merge]
  | cons j js ih =>
      change j.compile.merge (mergeAll (js ++ ks)) = (j.compile.merge (mergeAll js)).merge _
      rw [ih, merge_assoc]

/-- Parameters without the labels of conjunctions. -/
def leafParams (ps : List Param) : List Param := ps.filter (· ≠ .label "and")

/-- The label in front of the parameters of a simple joiner. -/
def tag : Joiner V → String
  | all => ""
  | equal _ _ => "equal"
  | compare c _ _ => c.label
  | overlapping _ _ _ _ => "overlapping"
  | filtering _ => "filtering"
  | and _ _ => "and"

/-- The number of functions that follow a label. -/
def arity (tag : String) : Nat :=
  if tag = "overlapping" then 4 else if tag = "filtering" then 1 else 2

omit [Cell V] in
theorem Coded.tagged {j : Joiner V} {ps : List Param} (hj : j.Simple) (h : j.Coded N ps) :
    ∃ qs, ps = .label j.tag :: qs ∧ qs.length = arity j.tag ∧ j.tag ≠ "and" ∧
      ∀ q ∈ qs, ∀ text, q ≠ .label text := by
  cases j with
  | all => exact hj.elim
  | and first second => exact hj.elim
  | equal left right =>
      obtain ⟨p, q, rfl, hp, hq⟩ := h
      exact ⟨[p, q], rfl, rfl, by simp [tag], by simp [hp.ne_label, hq.ne_label]⟩
  | compare c left right =>
      obtain ⟨p, q, rfl, hp, hq⟩ := h
      refine ⟨[p, q], rfl, ?_, ?_, by simp [hp.ne_label, hq.ne_label]⟩
      · cases c <;> rfl
      · cases c <;> simp [tag, Comparison.label]
  | overlapping ls le rs re =>
      obtain ⟨p, q, r, s, rfl, hp, hq, hr, hs⟩ := h
      exact ⟨[p, q, r, s], rfl, rfl, by simp [tag],
        by simp [hp.ne_label, hq.ne_label, hr.ne_label, hs.ne_label]⟩
  | filtering accepts =>
      obtain ⟨p, rfl, hp⟩ := h
      exact ⟨[p], rfl, rfl, by simp [tag], by simp [hp.ne_label]⟩

omit [Cell V] in
theorem Coded.leafParams {j : Joiner V} {ps : List Param} (hj : j.Simple) (h : j.Coded N ps) :
    Joiner.leafParams ps = ps := by
  obtain ⟨qs, rfl, -, htag, hqs⟩ := h.tagged hj
  refine List.filter_eq_self.mpr fun q hq => ?_
  rcases List.mem_cons.mp hq with rfl | hq
  · simpa using htag
  · simpa using hqs q hq "and"

/-- A joiner is the conjunction of a chain of simple ones. -/
theorem Coded.chain {j : Joiner V} {ps : List Param} (h : j.Coded N ps) :
    ∃ js, Chain N js (Joiner.leafParams ps) ∧ j.compile = mergeAll js := by
  have hsimple : ∀ {k : Joiner V} {qs : List Param}, k.Simple → k.Coded N qs →
      ∃ js, Chain N js (Joiner.leafParams qs) ∧ k.compile = mergeAll js := by
    intro k qs hk hqs
    refine ⟨[k], ?_, (merge_nil _).symm⟩
    rw [hqs.leafParams hk, ← List.append_nil qs]
    exact .cons hk hqs .nil
  induction j generalizing ps with
  | all =>
      obtain rfl : ps = [] := h
      exact ⟨[], .nil, rfl⟩
  | and first second ih₁ ih₂ =>
      obtain ⟨qs, rs, rfl, hqs, hrs⟩ := h
      obtain ⟨js, hjs, hj⟩ := ih₁ hqs
      obtain ⟨ks, hks, hk⟩ := ih₂ hrs
      refine ⟨js ++ ks, ?_, ?_⟩
      · have hleaf : Joiner.leafParams (.label "and" :: (qs ++ rs)) =
            Joiner.leafParams qs ++ Joiner.leafParams rs := by
          simp [Joiner.leafParams]
        rw [hleaf]
        exact hjs.append hks
      · rw [mergeAll_append, ← hj, ← hk]
        rfl
  | equal _ _ | compare _ _ _ | overlapping _ _ _ _ | filtering _ => exact hsimple trivial h

/-- Simple joiners with the same parameters compile alike. -/
theorem Coded.unique_simple (hN : N.Functional) {j k : Joiner V} {ps : List Param} (hj : j.Simple)
    (hk : k.Simple) (h : j.Coded N ps) (h' : k.Coded N ps) (hps : AllNamed ps) :
    j.compile = k.compile := by
  have htag : j.tag = k.tag := by
    obtain ⟨qs, hqs, -⟩ := h.tagged hj
    obtain ⟨rs, hrs, -⟩ := h'.tagged hk
    exact Param.label.inj (List.cons.inj (hqs.symm.trans hrs)).1
  have hcell : ∀ {p : Param} {f f' : Row V → Except Fault V}, p ∈ ps → p.Codes N.cell f →
      p.Codes N.cell f' → f = f' :=
    fun hp hf hf' => hf.unique hN.cell hf' fun n hn => hps n (hn ▸ hp)
  cases j with
  | all => exact hj.elim
  | and first second => exact hj.elim
  | equal left right =>
      cases k with
      | equal left' right' =>
          obtain ⟨p, q, rfl, hp, hq⟩ := h
          obtain ⟨p', q', heq, hp', hq'⟩ := h'
          simp only [List.cons.injEq, and_true, true_and] at heq
          obtain ⟨rfl, rfl⟩ := heq
          simp only [compile, hcell (by simp) hp hp', hcell (by simp) hq hq']
      | compare c left' right' => cases c <;> simp [tag, Comparison.label] at htag
      | _ => simp [tag] at htag
  | compare c left right =>
      cases k with
      | compare c' left' right' =>
          obtain ⟨p, q, rfl, hp, hq⟩ := h
          obtain ⟨p', q', heq, hp', hq'⟩ := h'
          simp only [List.cons.injEq, and_true, Param.label.injEq] at heq
          obtain ⟨-, rfl, rfl⟩ := heq
          have hc : c = c' := by
            cases c <;> cases c' <;> simp [tag, Comparison.label] at htag ⊢
          subst hc
          unfold compile compareCondition
          rw [hcell (by simp) hp hp', hcell (by simp) hq hq']
      | _ => cases c <;> simp [tag, Comparison.label] at htag
  | overlapping ls le rs re =>
      cases k with
      | overlapping ls' le' rs' re' =>
          obtain ⟨p, q, r, s, rfl, hp, hq, hr, hs⟩ := h
          obtain ⟨p', q', r', s', heq, hp', hq', hr', hs'⟩ := h'
          simp only [List.cons.injEq, and_true, true_and] at heq
          obtain ⟨rfl, rfl, rfl, rfl⟩ := heq
          unfold compile overlapCondition
          rw [hcell (by simp) hp hp', hcell (by simp) hq hq', hcell (by simp) hr hr',
            hcell (by simp) hs hs']
      | compare c left' right' => cases c <;> simp [tag, Comparison.label] at htag
      | _ => simp [tag] at htag
  | filtering accepts =>
      cases k with
      | filtering accepts' =>
          obtain ⟨p, rfl, hp⟩ := h
          obtain ⟨p', heq, hp'⟩ := h'
          simp only [List.cons.injEq, and_true, true_and] at heq
          subst heq
          have hrun := hp.unique hN.test hp' fun n hn => hps n (by simp [hn])
          unfold compile
          rw [hrun]
      | compare c left' right' => cases c <;> simp [tag, Comparison.label] at htag
      | _ => simp [tag] at htag

theorem Chain.unique (hN : N.Functional) {js ks : List (Joiner V)} {ps : List Param}
    (h : Chain N js ps) (h' : Chain N ks ps) (hps : AllNamed ps) : mergeAll js = mergeAll ks := by
  induction h generalizing ks with
  | nil =>
      generalize hnil : ([] : List Param) = qs at h'
      cases h' with
      | nil => rfl
      | cons hk hp _ =>
          obtain ⟨rs, rfl, -⟩ := hp.tagged hk
          cases hnil
  | @cons j js ps qs hj hp hrest ih =>
      generalize hall : ps ++ qs = rs at h'
      cases h' with
      | nil =>
          obtain ⟨ps', rfl, -⟩ := hp.tagged hj
          cases hall
      | @cons k ks ps₂ qs₂ hk hp₂ hrest₂ =>
          obtain ⟨as, has, hlen, -⟩ := hp.tagged hj
          obtain ⟨bs, hbs, hlen₂, -⟩ := hp₂.tagged hk
          have hcons := hall
          rw [has, hbs] at hcons
          obtain ⟨hlabel, htail⟩ := List.cons.inj hcons
          have htag := Param.label.inj hlabel
          obtain ⟨rfl, rfl⟩ := List.append_inj htail (by rw [hlen, hlen₂, htag])
          obtain rfl : ps = ps₂ := by rw [has, hbs, htag]
          change j.compile.merge (mergeAll js) = k.compile.merge (mergeAll ks)
          rw [hp.unique_simple hN hj hk hp₂ hps.left, ih hrest₂ hps.right]

/-- The parameters of a joiner tell what it compiles to. -/
theorem Coded.unique (hN : N.Functional) {j k : Joiner V} {ps : List Param} (h : j.Coded N ps)
    (h' : k.Coded N ps) (hps : AllNamed ps) : j.compile = k.compile := by
  obtain ⟨js, hjs, hj⟩ := h.chain
  obtain ⟨ks, hks, hk⟩ := h'.chain
  rw [hj, hk]
  exact hjs.unique hN hks fun n hn => hps n (List.mem_of_mem_filter hn)

end Joiner

namespace GroupPart

theorem keys_cons (p : GroupPart V) (ps : List (GroupPart V)) :
    keys (p :: ps) = keys [p] ++ keys ps := by cases p <;> rfl

theorem collectors_cons (p : GroupPart V) (ps : List (GroupPart V)) :
    collectors (p :: ps) = collectors [p] ++ collectors ps := by cases p <;> rfl

/-- The same column, but for the name of a collector's function. -/
structure Alike (p p' : GroupPart V) : Prop where
  keys : keys [p] = GroupPart.keys [p']
  collectors : (collectors [p]).map (·.unnamed) = (GroupPart.collectors [p']).map (·.unnamed)

theorem label_count {k : CollectorKind} (h : k.label = "count") : k = .count := by
  cases k <;> simp [CollectorKind.label] at h ⊢

/-- The number of parameters of a part after its first two. -/
def arity (first second : Param) : Nat :=
  if first = .label "key" then if second = .label "distinct" then 1 else 0
  else if second = .label "count" then 0 else 1

theorem Coded.tagged {p : GroupPart V} {ps : List Param} (h : p.Coded N ps) :
    ∃ first second qs, ps = first :: second :: qs ∧ qs.length = arity first second := by
  cases p with
  | key f =>
      obtain ⟨a, rfl, ha⟩ := h
      exact ⟨_, a, [], rfl, by simp [arity, ha.ne_label]⟩
  | column index => exact ⟨_, _, [.index index], h, rfl⟩
  | collector c =>
      rw [Coded] at h
      split at h
      · exact ⟨_, _, [], h.1, rfl⟩
      · rename_i hk
        obtain ⟨a, rfl, -⟩ := h
        have hlabel : c.kind.label ≠ "count" := fun hc => hk (label_count hc)
        exact ⟨_, _, [a], rfl, by simp [arity, hlabel]⟩

/-- The parameters of one part never begin those of another. -/
theorem Coded.append_inj {p p' : GroupPart V} {ps ps' qs qs' : List Param} (h : p.Coded N ps)
    (h' : p'.Coded N ps') (heq : ps ++ qs = ps' ++ qs') : ps = ps' ∧ qs = qs' := by
  obtain ⟨a, b, rs, rfl, hlen⟩ := h.tagged
  obtain ⟨a', b', rs', rfl, hlen'⟩ := h'.tagged
  simp only [List.cons_append, List.cons.injEq] at heq
  obtain ⟨rfl, rfl, heq⟩ := heq
  obtain ⟨rfl, rfl⟩ := List.append_inj heq (hlen.trans hlen'.symm)
  exact ⟨rfl, rfl⟩

/-- Collectors with the same parameters are the same but for the name of their function. -/
theorem Coded.unique_collector (hN : N.Functional) {c c' : Collector V} {ps : List Param}
    (h : (collector c).Coded N ps) (h' : (collector c').Coded N ps) (hps : AllNamed ps) :
    c.unnamed = c'.unnamed := by
  rw [Coded] at h h'
  split at h <;> split at h'
  · exact hN.collector _ _ c c' h.2 h'.2
  · obtain ⟨b, hb, -⟩ := h'
    simp [h.1] at hb
  · obtain ⟨a, ha, -⟩ := h
    simp [h'.1] at ha
  · obtain ⟨a, rfl, ha⟩ := h
    obtain ⟨b, heq, hb⟩ := h'
    simp only [List.cons.injEq, Param.label.injEq, and_true, true_and] at heq
    obtain ⟨hlabel, rfl⟩ := heq
    cases a with
    | function id =>
        cases id with
        | named name => exact hN.collector _ _ c c' ha (hlabel ▸ hb)
        | own n => exact absurd (by simp) (hps n)
    | _ => exact ha.elim

theorem Coded.head_collector {c : Collector V} {ps : List Param} (h : (collector c).Coded N ps) :
    ps.head? = some (.label "collector") := by
  rw [Coded] at h
  split at h
  · rw [h.1, List.head?_cons]
  · obtain ⟨a, rfl, -⟩ := h
    rfl

/-- The parameters of a part tell its column. -/
theorem Coded.unique (hN : N.Functional) {p p' : GroupPart V} {ps : List Param}
    (h : p.Coded N ps) (h' : p'.Coded N ps) (hps : AllNamed ps) : Alike p p' := by
  cases p with
  | key f =>
      obtain ⟨a, rfl, ha⟩ := h
      cases p' with
      | key f' =>
          obtain ⟨b, heq, hb⟩ := h'
          obtain rfl : a = b := by simpa using heq
          have hrun := ha.unique hN.cell hb hps.tail.head
          exact ⟨by simp only [GroupPart.keys, hrun], rfl⟩
      | column index => simp [Coded] at h'
      | collector c => exact absurd h'.head_collector (by simp)
  | column index =>
      obtain rfl : ps = _ := h
      cases p' with
      | key f' => simp [Coded] at h'
      | column index' =>
          obtain rfl : index = index' := by simpa [Coded] using h'
          exact ⟨rfl, rfl⟩
      | collector c => exact absurd h'.head_collector (by simp)
  | collector c =>
      cases p' with
      | key f' =>
          obtain ⟨b, rfl, -⟩ := h'
          exact absurd h.head_collector (by simp)
      | column index =>
          obtain rfl : ps = _ := h'
          exact absurd h.head_collector (by simp)
      | collector c' =>
          exact ⟨rfl, by simp [GroupPart.collectors, h.unique_collector hN h' hps]⟩

theorem Coded.ne_nil {p : GroupPart V} {ps : List Param} (h : p.Coded N ps) : ps ≠ [] := by
  rintro rfl
  have hcount := h.countP
  simp at hcount

/-- The parameters of a grouping tell its columns. -/
theorem AllCoded.unique (hN : N.Functional) {ps ps' : List (GroupPart V)} {params : List Param}
    (h : AllCoded N ps params) (h' : AllCoded N ps' params) (hnamed : AllNamed params) :
    keys ps = keys ps' ∧
      (collectors ps).map (·.unnamed) = (collectors ps').map (·.unnamed) := by
  induction h generalizing ps' with
  | nil =>
      generalize hnil : ([] : List Param) = qs at h'
      cases h' with
      | nil => exact ⟨rfl, rfl⟩
      | cons hp _ => exact absurd (List.append_eq_nil_iff.mp hnil.symm).1 hp.ne_nil
  | @cons p ps qs rs hp hrest ih =>
      generalize hall : qs ++ rs = all at h'
      cases h' with
      | nil => exact absurd (List.append_eq_nil_iff.mp hall).1 hp.ne_nil
      | @cons p' ps' qs' rs' hp' hrest' =>
          obtain ⟨rfl, rfl⟩ := hp.append_inj hp' hall
          obtain ⟨hkeys, hcollectors⟩ := hp.unique hN hp' hnamed.left
          obtain ⟨ihkeys, ihcollectors⟩ := ih hrest' hnamed.right
          rw [keys_cons, keys_cons p', collectors_cons, collectors_cons p', List.map_append,
            List.map_append, hkeys, hcollectors, ihkeys, ihcollectors]
          exact ⟨rfl, rfl⟩

end GroupPart

namespace Operation.Coded

variable [Cell V] {key : DeclarationKey} {op op' : Operation V}

theorem source_unique {type type' : String} {includeUnassigned includeUnassigned' : Bool}
    (h : (source type includeUnassigned : Operation V).Coded N key)
    (h' : (source type' includeUnassigned' : Operation V).Coded N key) :
    type = type' ∧ includeUnassigned = includeUnassigned' := by
  have heq := h.2.symm.trans h'.2
  simpa only [List.cons.injEq, Param.type.injEq, Param.flag.injEq, and_true] using heq

theorem filter_unique (hN : N.Functional) {accepts accepts' : Row V → Except Fault Bool}
    (h : (filter accepts).Coded N key) (h' : (filter accepts').Coded N key)
    (hnamed : AllNamed key.params) : accepts = accepts' := by
  obtain ⟨-, p, hp, hcodes⟩ := h
  obtain ⟨-, p', hp', hcodes'⟩ := h'
  obtain rfl : p = p' := by simpa using hp.symm.trans hp'
  exact hcodes.unique hN.test hcodes' fun n hn => hnamed n (by simp [hp, hn])

theorem flattenLast_unique (hN : N.Functional) {expand expand' : Row V → Except Fault (List V)}
    (h : (flattenLast expand).Coded N key) (h' : (flattenLast expand').Coded N key)
    (hnamed : AllNamed key.params) : expand = expand' := by
  obtain ⟨-, p, f, hp, hcodes, rfl⟩ := h
  obtain ⟨-, p', f', hp', hcodes', rfl⟩ := h'
  obtain rfl : p = p' := by simpa using hp.symm.trans hp'
  have hrun := hcodes.unique hN.items hcodes' fun n hn => hnamed n (by simp [hp, hn])
  funext row
  unfold Candidate.expandLast
  rw [hrun]

theorem join_unique (hN : N.Functional) {indexer indexer' : JoinIndexer V}
    (h : (join indexer).Coded N key) (h' : (join indexer').Coded N key)
    (hnamed : AllNamed key.params) : indexer = indexer' := by
  obtain ⟨-, j, hj, rfl⟩ := h
  obtain ⟨-, j', hj', rfl⟩ := h'
  exact hj.unique hN hj' hnamed

theorem exists_unique (hN : N.Functional) {shouldExist shouldExist' : Bool}
    {indexer indexer' : JoinIndexer V} (h : («exists» shouldExist indexer).Coded N key)
    (h' : («exists» shouldExist' indexer').Coded N key) (hnamed : AllNamed key.params) :
    shouldExist = shouldExist' ∧ indexer = indexer' := by
  obtain ⟨-, j, ps, hps, hj, rfl⟩ := h
  obtain ⟨-, j', ps', hps', hj', rfl⟩ := h'
  have heq := hps.symm.trans hps'
  simp only [List.cons.injEq, Param.flag.injEq] at heq
  obtain ⟨rfl, rfl⟩ := heq
  exact ⟨rfl, hj.unique hN hj' fun n hn => hnamed n (by simp [hps, hn])⟩

theorem group_unique (hN : N.Functional) {keys keys' : List (Row V → Except Fault V)}
    {collectors collectors' : List (Collector V)} (h : (group keys collectors).Coded N key)
    (h' : (group keys' collectors').Coded N key) (hnamed : AllNamed key.params) :
    keys = keys' ∧ collectors.map (·.unnamed) = collectors'.map (·.unnamed) := by
  obtain ⟨-, parts, hparts, rfl, rfl⟩ := h
  obtain ⟨-, parts', hparts', rfl, rfl⟩ := h'
  exact hparts.unique hN hparts' hnamed

/-- A key whose functions all have names tells what its operation computes. -/
theorem query_unique (hN : N.Functional) (h : op.Coded N key) (h' : op'.Coded N key)
    (hnamed : AllNamed key.params) : op.query = op'.query := by
  have hsame : op.kind = op'.kind := h.1.symm.trans h'.1
  cases op <;> cases op' <;> try cases hsame
  case source.source =>
      obtain ⟨rfl, rfl⟩ := h.source_unique h'
      rfl
  case filter.filter => rw [h.filter_unique hN h' hnamed]
  case map.map => rw [codes_unique hN.cell h.2 h'.2 hnamed]
  case flattenLast.flattenLast => rw [h.flattenLast_unique hN h' hnamed]
  case join.join => rw [h.join_unique hN h' hnamed]
  case exists.exists =>
      obtain ⟨rfl, rfl⟩ := h.exists_unique hN h' hnamed
      rfl
  case group.group =>
      obtain ⟨hkeys, hcollectors⟩ := h.group_unique hN h' hnamed
      funext qs
      rcases qs with _ | ⟨q, _ | ⟨q', qs⟩⟩
      · rfl
      · simp only [Operation.query, hkeys, hcollectors]
      · rfl
  -- Bridges and constraints hand on what their input computes, whatever they are.
  case foreBridge.foreBridge | score.score =>
      funext qs
      rcases qs with _ | ⟨q, _ | ⟨q', qs⟩⟩ <;> rfl
  case aftBridge.aftBridge | concat.concat => rfl

end Operation.Coded

end ConstraintScoring
