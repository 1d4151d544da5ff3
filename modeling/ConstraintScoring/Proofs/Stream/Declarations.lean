import ConstraintScoring.Proofs.Session.Providers

/-!
# Any calls on a constraint factory

A factory is called in any order, with streams that it handed out or with streams of other
factories. Its graph stays in order, a call that is refused changes nothing, and a chain of calls
whose functions go by names can be made over and over without declaring anything new.
-/

namespace ConstraintScoring

variable {V S α : Type}

/-- A call on a constraint factory. -/
inductive FactoryCall (V S : Type) where
  | stream (call : StreamCall V Stream)
  | constraint (s : Stream) (ref : ConstraintRef) (weight : S) (terms : ConstraintTerms V S)

namespace FactoryCall

/-- Makes the call, which answers the stream that it hands out, if any. -/
def run [Cell V] : FactoryCall V S → Declaring V S (Option Stream)
  | stream call => do return some (← call.run)
  | constraint s ref weight terms => do
      let _ ← ConstraintFactory.constraint s ref weight terms
      return none

def operands : FactoryCall V S → List Stream
  | stream call => call.operands
  | constraint s _ _ _ => [s]

/-- Streams that are put one behind the other have the same columns. -/
def WellTyped : FactoryCall V S → Prop
  | stream (.concat s t) => s.width = t.width
  | _ => True

/-- Why a factory refuses the call, if it does. -/
def refusal? (f : ConstraintFactory V S) : FactoryCall V S → Option ConfigProblem
  | stream call => call.refusal? f
  | constraint s ref _ _ =>
      if s.factory = f.id then
        if f.graph.hasName ref.fullName then some (.duplicateConstraint ref.fullName) else none
      else some .differentFactories

end FactoryCall

/-- A factory with the streams that it has handed out. -/
structure Desk (V S : Type) where
  factory : ConstraintFactory V S
  streams : List Stream

/-- Streams of the desk, or of other factories. -/
structure FactoryCall.Offered (c : FactoryCall V S) (d : Desk V S) : Prop where
  operands : ∀ s ∈ c.operands, s ∈ d.streams ∨ s.factory ≠ d.factory.id
  wellTyped : c.WellTyped

namespace Desk

/-- A new factory. -/
def opened (id : Nat) (domain : DomainModel V) : Desk V S := ⟨.new id domain, []⟩

variable [Cell V]

/-- The desk after a call, whether the call was answered or not. -/
def after (d : Desk V S) (c : FactoryCall V S) : Desk V S :=
  match c.run.run.run d.factory with
  | (.ok (some u), f) => ⟨f, u :: d.streams⟩
  | (_, f) => ⟨f, d.streams⟩

/-- Any calls lead from one desk to the other. -/
inductive Leads (d : Desk V S) : Desk V S → Prop where
  | refl : Leads d d
  | call {d'} (c : FactoryCall V S) : Leads d d' → c.Offered d' → Leads d (d'.after c)

end Desk

/-- Calls that hand out streams, one after the other, each with streams of the ones before. -/
inductive Chain (V α : Type) where
  | done (a : α)
  | call (c : StreamCall V Stream) (next : Stream → Chain V α)

namespace Chain

/-- Makes the calls of a chain at a desk. -/
def make [Cell V] : Chain V α → Desk V S → Except EngineError α × Desk V S
  | done a, d => (.ok a, d)
  | call c next, d =>
      match c.run.run.run d.factory with
      | (.ok u, f) => (next u).make ⟨f, u :: d.streams⟩
      | (.error e, f) => (.error e, ⟨f, d.streams⟩)

/-- All functions of a chain go by names. -/
def IsNamed : Chain V α → Prop
  | done _ => True
  | call c next => c.IsNamed ∧ ∀ u, (next u).IsNamed

/-- Every call of a chain is made with streams that are there when its turn has come. -/
def Offered [Cell V] : Chain V α → Desk V S → Prop
  | done _, _ => True
  | call c next, d => FactoryCall.Offered (.stream c : FactoryCall V S) d ∧
      ∀ u f, c.run.run.run d.factory = (.ok u, f) → (next u).Offered ⟨f, u :: d.streams⟩

end Chain

theorem RowFunction.respects_any {β : Type} {R : String → (Row V → Except Fault β) → Prop}
    (f : RowFunction V β) (hR : ∀ name f, R name f) : f.Respects R := fun name _ => hR name _

theorem Joiner.respects_any (j : Joiner V) : j.Respects .any := by
  have hcell : ∀ f : RowFunction V V, f.Respects (Naming.any : Naming V).cell := fun f =>
    f.respects_any fun _ _ => trivial
  induction j with
  | all => trivial
  | equal left right | compare c left right => exact ⟨hcell left, hcell right⟩
  | overlapping ls le rs re => exact ⟨hcell ls, hcell le, hcell rs, hcell re⟩
  | filtering accepts => exact accepts.respects_any fun _ _ => trivial
  | and first second ih₁ ih₂ => exact ⟨ih₁, ih₂⟩

theorem GroupPart.respects_any (p : GroupPart V) : p.Respects .any := by
  cases p with
  | key f => exact f.respects_any fun _ _ => trivial
  | column index => trivial
  | collector c =>
      by_cases hk : c.kind = .count
      · simp only [GroupPart.Respects, if_pos hk]
        trivial
      · simp only [GroupPart.Respects, if_neg hk]
        exact fun _ _ => trivial

/-- When a name may stand for anything, every call may use any names. -/
theorem StreamCall.respects_any (call : StreamCall V α) (domain : DomainModel V) :
    call.Respects .any domain := by
  cases call with
  | filter s f | flattenLast s f => exact f.respects_any fun _ _ => trivial
  | map s columns => exact fun c _ => c.respects_any fun _ _ => trivial
  | group s parts => exact fun p _ => p.respects_any
  | join s t joiner | existence b s t joiner | existenceOther b b' s type joiner =>
      exact joiner.respects_any
  | forEachUniquePair type joiner => exact fun c _ => Joiner.respects_any _
  | _ => trivial

/-- A declaration graph in order. -/
structure GraphBuilder.Coherent (g : GraphBuilder V S) : Prop where
  /-- The cache has the key of every declaration, and no other. -/
  canonical : ∀ k id, g.canonical.get? k = some id ↔
    ∃ d, g.declarations[id]? = some d ∧ d.key = k
  parents_lt : ∀ (id : DeclId) d, g.declarations[id]? = some d → ∀ p ∈ d.parents, p < id
  children : ∀ (p : DeclId) d, g.declarations[p]? = some d → d.children.Nodup ∧
    ∀ id, id ∈ d.children ↔ ∃ e, g.declarations[id]? = some e ∧ p ∈ e.parents
  bridged : ∀ (id : DeclId) d, g.declarations[id]? = some d → d.kind.isBridged →
    ∃ b e, d.aftBridge = some b ∧ g.declarations[b]? = some e ∧ e.kind = .aftBridge ∧
      e.parents = [id]

theorem GraphBuilder.Whole.coherent [Cell V] {N : Naming V} {g : GraphBuilder V S}
    (h : g.Whole N) : g.Coherent := by
  have hdeclared : ∀ {id d}, g.declarations[id]? = some d → g.declared id = some d.candidate :=
    fun hd => declaredIn_eq_some.mpr ⟨_, hd, rfl⟩
  have hfound : ∀ {id : DeclId} {P : DeclarationKey → Prop},
      (∃ c, g.declared id = some c ∧ P c.key) ↔ ∃ d, g.declarations[id]? = some d ∧ P d.key := by
    intro id P
    constructor
    · rintro ⟨c, hc, hP⟩
      obtain ⟨d, hd, rfl⟩ := declaredIn_eq_some.mp hc
      exact ⟨d, hd, hP⟩
    · rintro ⟨d, hd, hP⟩
      exact ⟨d.candidate, hdeclared hd, hP⟩
  refine ⟨fun k id => (h.canonical k id).trans (hfound (P := fun k' => k' = k)),
    fun id d hd =>
    h.formed.parents_lt id _ (hdeclared hd), fun p d hd => ⟨h.formed.children_nodup p d hd,
      fun id => (h.formed.mem_children p d hd id).trans (hfound (P := fun k => p ∈ k.parents))⟩,
    fun id d hd hkind => ?_⟩
  have hcoded : d.key.kind = d.operation.kind := (h.coded id _ (hdeclared hd)).1
  obtain ⟨b, hb⟩ := Option.isSome_iff_exists.mp (h.complete id d hd (hcoded ▸ hkind))
  obtain ⟨e, he, hbridge⟩ := declaredIn_eq_some.mp (h.bridged id d b hd hb)
  have hkey : e.key = (Candidate.aftBridge id d.width : Candidate V).key :=
    congrArg Candidate.key hbridge
  refine ⟨b, e, hb, he, ?_, ?_⟩
  · rw [Declaration.kind, hkey]
    rfl
  · rw [Declaration.parents, hkey]
    rfl

namespace Desk

open ConstraintFactory

variable [Cell V] {d d' : Desk V S} {c : FactoryCall V S} {u : Stream}
  {f : ConstraintFactory V S}

/-- What all calls keep up. -/
structure Kept (d : Desk V S) : Prop where
  whole : d.factory.graph.Whole .any
  ended : d.factory.graph.Ended
  handed : ∀ s ∈ d.streams, Handed d.factory.graph.declared s

theorem kept_opened (id : Nat) (domain : DomainModel V) : (opened id domain : Desk V S).Kept := by
  have hsound : Provided.Sound .any id domain (.new id domain : ConstraintFactory V S) [] [] := .new
  exact ⟨hsound.graph, hsound.ended, fun s hs => by cases hs⟩

/-- What a call that hands out a stream leads to. -/
theorem Kept.made (h : d.Kept) {call : StreamCall V Stream}
    (hc : FactoryCall.Offered (.stream call) d) (hnone : call.refusal? d.factory = none) :
    ∃ u f, call.run.run.run d.factory = (.ok u, f) ∧ Later .any d.factory f ∧
      Kept ⟨f, u :: d.streams⟩ ∧ (call.IsNamed → Again .any f call.run u) := by
  let q : Query V := .source "" true
  have hcall : (call.mapStreams fun s => (s, q)).mapStreams (·.1) = call := by cases call <;> rfl
  have hown : ∀ s ∈ call.operands, s.factory = d.factory.id := by
    unfold StreamCall.refusal? at hnone
    split at hnone
    · rename_i hown
      simpa using hown
    · cases hnone
  have hhanded : ∀ s ∈ (call.mapStreams fun s => (s, q)).operands,
      Handed d.factory.graph.declared s.1 := by
    rw [StreamCall.operands_mapStreams, List.forall_mem_map]
    exact fun s hs => h.handed s ((hc.operands s hs).resolve_right (not_not_intro (hown s hs)))
  have htyped : (call.mapStreams fun s => (s, q)).WellTyped := by
    have hc := hc.wellTyped
    cases call <;> exact hc
  obtain ⟨u, f, hrun, hmade⟩ := StreamCall.made h.whole hhanded (StreamCall.respects_any _ _) htyped
    (hcall.symm ▸ hnone)
  rw [hcall] at hrun
  refine ⟨u, f, hrun, ⟨hmade.id, hmade.domain, hmade.whole, hmade.grown.kept⟩,
    ⟨hmade.whole, h.ended.grown hmade.grown fun _ hc => hc.ne_score, fun s hs => ?_⟩,
    fun hn => hcall ▸ hmade.again ?_⟩
  · rcases List.mem_cons.mp hs with rfl | hs
    · exact hmade.handed
    · exact (h.handed s hs).kept hmade.grown.kept
  · cases call <;> exact hn

theorem Kept.registered (h : d.Kept) {s : Stream} {ref : ConstraintRef} {weight : S}
    {terms : ConstraintTerms V S}
    (hc : FactoryCall.Offered (.constraint s ref weight terms) d) (hown : s.factory = d.factory.id)
    (hnew : d.factory.graph.hasName ref.fullName = false) :
    ∃ k f, (constraint s ref weight terms).run.run d.factory = (.ok k, f) ∧
      Later .any d.factory f ∧ Kept ⟨f, d.streams⟩ := by
  have hhanded := h.handed s ((hc.operands s List.mem_cons_self).resolve_right (not_not_intro hown))
  obtain ⟨g, hrun, hregistered⟩ := GraphBuilder.addConstraint_run
    (k := ⟨ref, terms.impact, weight, terms.weigher, terms.justifier, terms.indicter, s.decl⟩)
    h.whole.toSound h.ended hhanded.plain hnew
  have hwhole : g.Whole .any :=
    ⟨hregistered.sound, h.whole.complete.completes hregistered.completes⟩
  refine ⟨⟨d.factory.id, d.factory.graph.constraints.size, ref⟩, { d.factory with graph := g }, ?_,
    ⟨rfl, rfl, hwhole, hregistered.kept⟩,
    ⟨hwhole, hregistered.ended, fun t ht => (h.handed t ht).kept hregistered.kept⟩⟩
  rw [constraint_run hown, hrun]

/-- A call that is refused changes nothing. -/
theorem call_refuses {problem : ConfigProblem} (h : c.refusal? f = some problem) :
    c.run.run.run f = (.error (.config problem), f) := by
  cases c with
  | stream call =>
      unfold FactoryCall.run
      rw [Outcome.run_bind, StreamCall.refuses h]
  | constraint s ref weight terms =>
      have hrun : (constraint s ref weight terms).run.run f = (.error (.config problem), f) := by
        simp only [FactoryCall.refusal?] at h
        split at h
        · rename_i hown
          split at h
          · rename_i hname
            obtain rfl := Option.some.inj h
            rw [constraint_run hown, GraphBuilder.addConstraint_refuses hname]
          · cases h
        · rename_i hown
          obtain rfl := Option.some.inj h
          exact own_refuses hown
      unfold FactoryCall.run
      rw [Outcome.run_bind, hrun]

/-- A call that is not refused is answered. -/
theorem Kept.call (h : d.Kept) (hc : c.Offered d) (hnone : c.refusal? d.factory = none) :
    ∃ a f, c.run.run.run d.factory = (.ok a, f) ∧ Later .any d.factory f ∧
      Kept ⟨f, a.toList ++ d.streams⟩ := by
  cases c with
  | stream call =>
      obtain ⟨u, f, hrun, hlater, hkept, -⟩ := h.made hc hnone
      exact ⟨some u, f, Outcome.run_bind_eq_ok.mpr ⟨u, f, hrun, rfl⟩, hlater, hkept⟩
  | constraint s ref weight terms =>
      simp only [FactoryCall.refusal?] at hnone
      split at hnone
      swap
      · cases hnone
      rename_i hown
      split at hnone
      · cases hnone
      rename_i hname
      obtain ⟨k, f, hrun, hlater, hkept⟩ := h.registered hc hown (Bool.eq_false_iff.mpr hname)
      exact ⟨none, f, Outcome.run_bind_eq_ok.mpr ⟨k, f, hrun, rfl⟩, hlater, hkept⟩

/-- One call keeps up what all calls keep up, whether it is answered or not. -/
theorem Kept.after (h : d.Kept) (hc : c.Offered d) :
    (d.after c).Kept ∧ Later .any d.factory (d.after c).factory := by
  unfold Desk.after
  cases hrefusal : c.refusal? d.factory with
  | some problem =>
      rw [call_refuses hrefusal]
      exact ⟨h, rfl, rfl, h.whole, .refl _⟩
  | none =>
      obtain ⟨a, f, hrun, hlater, hkept⟩ := h.call hc hrefusal
      rw [hrun]
      cases a with
      | none => exact ⟨hkept, hlater⟩
      | some u => exact ⟨hkept, hlater⟩

theorem Leads.kept (h : Leads d d') (hd : d.Kept) :
    d'.Kept ∧ Later .any d.factory d'.factory := by
  induction h with
  | refl => exact ⟨hd, rfl, rfl, hd.whole, .refl _⟩
  | call c _ hc ih =>
      obtain ⟨hkept, hlater⟩ := ih
      obtain ⟨hkept', hlater'⟩ := hkept.after hc
      exact ⟨hkept', hlater.trans hlater'⟩

/-- What a chain of calls leads to, and what it answers from then on. -/
theorem Kept.make (h : d.Kept) {chain : Chain V α} (hn : chain.IsNamed) (ho : chain.Offered d)
    {a : α} (hrun : chain.make d = (.ok a, d')) : d'.Kept ∧ Later .any d.factory d'.factory ∧
      ∀ e : Desk V S, Later .any d'.factory e.factory →
        ∃ streams, chain.make e = (.ok a, ⟨e.factory, streams⟩) := by
  induction chain generalizing d with
  | done b =>
      obtain ⟨rfl, rfl⟩ := Outcome.answer_inj hrun
      exact ⟨h, ⟨rfl, rfl, h.whole, .refl _⟩, fun e _ => ⟨e.streams, rfl⟩⟩
  | call c next ih =>
      unfold Chain.make at hrun
      cases hrefusal : c.refusal? d.factory with
      | some problem =>
          rw [StreamCall.refuses hrefusal] at hrun
          cases (Prod.mk.inj hrun).1
      | none =>
          obtain ⟨u, f, hcall, hlater, hkept, hagain⟩ := h.made ho.1 hrefusal
          rw [hcall] at hrun
          obtain ⟨hkept', hlater', hrest⟩ := ih u hkept (hn.2 u) (ho.2 u f hcall) hrun
          refine ⟨hkept', hlater.trans hlater', fun e he => ?_⟩
          obtain ⟨streams, hmake⟩ := hrest ⟨e.factory, u :: e.streams⟩ he
          refine ⟨streams, ?_⟩
          unfold Chain.make
          rw [hagain hn.1 e.factory (hlater'.trans he)]
          exact hmake

/-- What is known of a factory, whatever calls were made on it. -/
structure Orderly (d : Desk V S) : Prop where
  coherent : d.factory.graph.Coherent
  /-- A call fails because of a problem that it comes with, and then changes nothing. -/
  fails : ∀ c : FactoryCall V S, c.Offered d → ∀ e f, c.run.run.run d.factory = (.error e, f) →
    f = d.factory ∧ ∃ problem, c.refusal? d.factory = some problem ∧ e = .config problem
  answers : ∀ c : FactoryCall V S, c.Offered d → c.refusal? d.factory = none →
    ∃ a f, c.run.run.run d.factory = (.ok a, f)
  /-- A chain that was made once hands out the same streams after any other calls. -/
  repeats : ∀ {α : Type} (chain : Chain V α) (a : α) d₁ d₂, chain.IsNamed → chain.Offered d →
    chain.make d = (.ok a, d₁) → Leads d₁ d₂ →
      ∃ streams, chain.make d₂ = (.ok a, ⟨d₂.factory, streams⟩)

theorem Kept.orderly (h : d.Kept) : d.Orderly where
  coherent := h.whole.coherent
  fails c hc e f hrun := by
    cases hrefusal : c.refusal? d.factory with
    | some problem =>
        rw [call_refuses hrefusal] at hrun
        obtain ⟨he, hf⟩ := Prod.mk.inj hrun
        exact ⟨hf.symm, problem, rfl, (Except.error.inj he).symm⟩
    | none =>
        obtain ⟨a, f', hanswer, -⟩ := h.call hc hrefusal
        rw [hanswer] at hrun
        cases (Prod.mk.inj hrun).1
  answers c hc hnone := by
    obtain ⟨a, f, hrun, -⟩ := h.call hc hnone
    exact ⟨a, f, hrun⟩
  repeats chain a d₁ d₂ hn ho hrun hleads := by
    obtain ⟨hkept, -, hagain⟩ := h.make hn ho hrun
    exact hagain d₂ (hleads.kept hkept).2

theorem orderly_of_leads {id : Nat} {domain : DomainModel V} (h : Leads (opened id domain) d) :
    d.Orderly :=
  (h.kept (kept_opened id domain)).1.orderly

end Desk

namespace Coin

def isWorthy : RowFunction Coin Bool := ⟨some "worthy", isGood.run⟩

def namedWorth : RowFunction Coin Coin := ⟨some "worth", worthOf.run⟩

/-- Good coins, each with the coins of its worth. -/
def pairing : Chain Coin (List Stream) :=
  .call (.forEach "coin") fun all => .call (.filter all isWorthy) fun good =>
    .call (.join good all (.equal namedWorth namedWorth)) fun both => .done [all, good, both]

theorem pairing_offered (d : Desk Coin SimpleScore) : pairing.Offered d := by
  refine ⟨⟨fun s hs => (by cases hs), trivial⟩, fun all _ _ => ⟨⟨fun s hs => Or.inl ?_, trivial⟩,
    fun good _ _ => ⟨⟨fun s hs => Or.inl ?_, trivial⟩, fun _ _ _ => trivial⟩⟩⟩
  · obtain rfl := List.mem_singleton.mp hs
    exact List.mem_cons_self
  · rcases List.mem_cons.mp hs with rfl | hs
    · exact List.mem_cons_self
    · obtain rfl := List.mem_singleton.mp hs
      exact List.mem_cons_of_mem _ List.mem_cons_self

/-- A desk at which coins were asked for, and something that is unknown. -/
def desk : Desk Coin SimpleScore :=
  ((Desk.opened 0 domain).after (.stream (.forEach "coin"))).after (.stream (.forEach "note"))

theorem leads_desk : Desk.Leads (Desk.opened 0 domain) desk := by
  have hoffered : ∀ (type : String) (d : Desk Coin SimpleScore),
      FactoryCall.Offered (.stream (.forEach type)) d :=
    fun _ _ => ⟨fun s hs => (by cases hs), trivial⟩
  exact .call _ (.call _ .refl (hoffered _ _)) (hoffered _ _)

/-- The desk after the pairing. -/
def pairedDesk : Desk Coin SimpleScore := (pairing.make desk).2

/-- The desk after the pairing, and after the coins were counted by worth. -/
def laterDesk : Desk Coin SimpleScore :=
  pairedDesk.after (.stream (.group ⟨0, 0, 1⟩ [.key worthOf, .collector number]))

theorem leads_laterDesk : Desk.Leads pairedDesk laterDesk := by
  have hcoins : (⟨0, 0, 1⟩ : Stream) ∈ pairedDesk.streams := by decide +kernel
  refine .call _ .refl ⟨fun s hs => Or.inl ?_, trivial⟩
  obtain rfl := List.mem_singleton.mp hs
  exact hcoins

theorem pairing_answers : (pairing.make desk).1.toOption.isSome := by decide +kernel

end Coin

namespace Desk

/-- At the desk the pairing is made twice, and hands out the same streams. -/
theorem orderly_of_leads_coins : Coin.desk.Orderly ∧ ∃ a streams,
    (Coin.pairing.make Coin.desk).1 = .ok a ∧
      Coin.pairing.make Coin.laterDesk = (.ok a, ⟨Coin.laterDesk.factory, streams⟩) := by
  have horderly : Coin.desk.Orderly := orderly_of_leads Coin.leads_desk
  obtain ⟨a, hmade⟩ : ∃ a, (Coin.pairing.make Coin.desk).1 = .ok a :=
    ⟨_, Outcome.eq_ok_get Coin.pairing_answers⟩
  have hnamed : Coin.pairing.IsNamed :=
    ⟨trivial, fun _ => ⟨rfl, fun _ => ⟨⟨rfl, rfl⟩, fun _ => trivial⟩⟩⟩
  have hrun : Coin.pairing.make Coin.desk = (.ok a, Coin.pairedDesk) := by
    rw [← hmade, Coin.pairedDesk]
  obtain ⟨streams, hagain⟩ := horderly.repeats Coin.pairing a Coin.pairedDesk Coin.laterDesk
    hnamed (Coin.pairing_offered _) hrun Coin.leads_laterDesk
  exact ⟨horderly, a, streams, hmade, hagain⟩

end Desk

end ConstraintScoring
